import NodeManager.DictionarySums
import NodeManager.PeerRecords
import NodeManager.Runs

namespace NodeManager.QuotaGossip

open Dictionary EpochOrder Outcomes PeerRecords Runs SharedQuota TrafficRecords

structure Plan where
  userId : String
  identity : String
  limit : Nat

def Plan.account (plan : Plan) : Account := ⟨some plan.identity, some plan.limit⟩

structure Export where
  epoch : Epoch
  origins : Dict String Origin

structure Report where
  node : String
  total : Nat
  epoch : Epoch

structure Receipt where
  node : String
  source : String
  total : Nat
  deriving DecidableEq

/-- The records that the nodes have of the user, and the values that are under way. -/
structure Network where
  nodes : Dict String User
  exports : List Export := []
  reports : List Report := []
  received : List Receipt := []

inductive Step
  | grow (node : String) (growth : Bytes)
  | exportOrigins (node : String)
  | importOrigins (node : String) (number : Nat)
  | inspect (node : String)
  | observe (node : String) (number : Nat) (observedAt : String) (age : Option Int)
      (expected : Epoch)

def Report.update (plan : Plan) (report : Report) (expected : Epoch) : Update :=
  ⟨plan.userId, ⟨plan.userId, plan.identity, plan.limit, report.total, report.epoch,
    report.epoch⟩, expected⟩

def Network.observe (iso : String → Option Stamp) (plan : Plan) (user : User) (node : String)
    (report : Report) (observedAt : String) (age : Option Int) (expected : Epoch) :
    Except QuotaError User := do
  let users ← applyObservation iso (Dict.empty.set plan.userId user)
    (Dict.empty.set plan.userId plan.account) node report.node observedAt age
    [report.update plan expected]
  return (users.get? plan.userId).getD {}

def Export.importInto (iso : String → Option Stamp) (message : Export) (node : String)
    (user : User) :
    User × Except QuotaError Unit :=
  importOrigins iso user message.origins node message.epoch.cycleStart.get
    (number message.epoch.manualResetAt) (some message.epoch)

section Steps

variable (iso : String → Option Stamp) (plan : Plan)

def Network.receive (net : Network) (node : String) (user : User) (message : Export) : Network :=
  match message.importInto iso node user with
  | (user', .ok ()) =>
    { net with
      nodes := net.nodes.set node user'
      received := (message.origins.entries.filter (fun e => e.1 ≠ node)).map
        (fun e => ⟨node, e.1, Origin.total e.2⟩) ++ net.received }
  | (_, .error _) => net

def Network.next (step : Step) (net : Network) : Network :=
  match step with
  | .grow node growth =>
    { net with nodes := net.nodes.modify node (fun user => user.withBytes (user.bytes + growth)) }
  | .exportOrigins node =>
    match net.nodes.get? node with
    | none => net
    | some user =>
      match exportOrigins iso user node with
      | .ok origins => { net with exports := net.exports ++ [⟨epoch user, origins⟩] }
      | .error _ => net
  | .importOrigins node number =>
    match net.nodes.get? node, net.exports[number]? with
    | some user, some message => net.receive iso node user message
    | _, _ => net
  | .inspect node =>
    match net.nodes.get? node with
    | none => net
    | some user =>
      { net with reports := net.reports ++ [⟨node, user.upload + user.download, epoch user⟩] }
  | .observe node number observedAt age expected =>
    match net.nodes.get? node, net.reports[number]? with
    | some user, some report =>
      match Network.observe iso plan user node report observedAt age expected with
      | .ok user' =>
        { net with
          nodes := net.nodes.set node user', received :=
          ⟨node, report.node, report.total⟩ :: net.received }
      | .error _ => net
    | _, _ => net

end Steps

def Network.native (net : Network) (node : String) : Nat :=
  net.nodes.valueAt (fun user => user.upload + user.download) node

def Network.peerUsed (iso : String → Option Stamp) (plan : Plan) (net : Network)
    (node : String) : Nat :=
  peerUsedBytes iso ((net.nodes.get? node).getD {}) (some plan.limit)

def Network.others (net : Network) (node : String) : Nat :=
  ((net.nodes.keys.filter (· ≠ node)).map net.native).sum

section Values

def size (record : Option Origin) : Nat := (record.map Origin.total).getD 0

variable {iso : String → Option Stamp}

theorem merge_same (iso : String → Option Stamp) {previous : Option Origin} {incoming : Origin}
    (h : ∀ p, previous = some p → p.epoch = incoming.epoch) :
    (mergeOrigin iso previous incoming).epoch = incoming.epoch ∧
      Origin.total (mergeOrigin iso previous incoming) =
      max (size previous) (Origin.total incoming) := by
  cases previous with
  | none => exact ⟨rfl, (Nat.zero_max _).symm⟩
  | some p =>
    have hp := h p rfl
    simp only [mergeOrigin, hp, ne_eq, not_true_eq_false, if_false, size, Option.map_some,
      Option.getD_some]
    split
    · exact ⟨rfl, by omega⟩
    · exact ⟨hp, by omega⟩

/-- Values that their sources really had. -/
def Truthful (nodes : List String) (epochs : String → Epoch) (native : String → Nat)
    (records : String → Option Origin) : Prop :=
  ∀ s r, records s = some r → s ∈ nodes ∧ r.epoch = epochs s ∧ Origin.total r ≤ native s

variable {nodes : List String} {epochs : String → Epoch} {native native' : String → Nat}
  {records : String → Option Origin}

section

variable (h : Truthful nodes epochs native records)
include h

theorem Truthful.mono (hle : ∀ s, native s ≤ native' s) :
    Truthful nodes epochs native' records := by
  intro s r hr
  obtain ⟨hs, hepoch, htotal⟩ := h s r hr
  exact ⟨hs, hepoch, htotal.trans (hle s)⟩

theorem Truthful.size_le (s : String) : size (records s) ≤ native s := by
  cases hr : records s with
  | none => exact Nat.zero_le _
  | some r => exact (h s r hr).2.2

theorem Truthful.merge (iso : String → Option Stamp) {s : String}
    {r : Origin} (hr : s ∈ nodes ∧ r.epoch = epochs s ∧ Origin.total r ≤ native s) :
    (mergeOrigin iso (records s) r).epoch = epochs s ∧
      Origin.total (mergeOrigin iso (records s) r) = max (size (records s)) (Origin.total r) := by
  have hsame : ∀ p, records s = some p → p.epoch = r.epoch := by
    intro p hp
    rw [(h s p hp).2.1, hr.2.1]
  exact ⟨(merge_same iso hsame).1.trans hr.2.1, (merge_same iso hsame).2⟩

end

def evidenceOf (user : User) (source : String) : Option Origin :=
  (user.sharedQuotaEvidence.get? source).map evidenceOrigin

/-- The record of a node before any reset: what it knows of a source was true, and is about other
nodes. -/
structure Honest (nodes : List String) (epochs : String → Epoch) (native : String → Nat)
    (limit : Nat) (node : String) (user : User) : Prop where
  stands : epoch user = epochs node
  origins : Truthful nodes epochs native user.replicatedTrafficOrigins.get?
  evidence : Truthful nodes epochs native (evidenceOf user)
  current : ∀ s e, user.sharedQuotaEvidence.get? s = some e → e.targetEpoch = epochs node ∧
    e.limitBytes = limit
  apart : user.replicatedTrafficOrigins.get? node = none ∧ user.sharedQuotaEvidence.get? node = none

def counted (user : User) (source : String) : Nat :=
  max (size (user.replicatedTrafficOrigins.get? source)) (size (evidenceOf user source))

variable {limit : Nat} {node : String} {user : User}

section

variable (h : Honest nodes epochs native limit node user)
include h

theorem Honest.mono (hle : ∀ s, native s ≤ native' s) :
    Honest nodes epochs native' limit node user :=
  ⟨h.stands, h.origins.mono hle, h.evidence.mono hle, h.current, h.apart⟩

theorem Honest.counted_le (s : String) :
    counted user s ≤ native s := max_le (h.origins.size_le s) (h.evidence.size_le s)

theorem Honest.counted_eq_zero {s : String} (hs : s ∉ nodes ∨ s = node) : counted user s = 0 := by
  have horigin : user.replicatedTrafficOrigins.get? s = none := by
    obtain hs | rfl := hs
    · by_contra hne
      obtain ⟨r, hr⟩ := Option.ne_none_iff_exists'.mp hne
      exact hs (h.origins s r hr).1
    · exact h.apart.1
  have hevidence : evidenceOf user s = none := by
    obtain hs | rfl := hs
    · by_contra hne
      obtain ⟨r, hr⟩ := Option.ne_none_iff_exists'.mp hne
      exact hs (h.evidence s r hr).1
    · rw [evidenceOf, h.apart.2]
      rfl
  rw [counted, horigin, hevidence]
  rfl

end

variable (hcycle : ∀ s ∈ nodes, ∀ t ∈ nodes, sameCycle (epochs s) (epochs t) = true)

include hcycle in
theorem Honest.get?_peerOrigins (h : Honest nodes epochs native limit node user)
    (hnode : node ∈ nodes) (s : String) :
    (peerOrigins iso user (some limit)).valueAt Origin.total s = counted user s := by
  have horigin : currentOrigin user s = user.replicatedTrafficOrigins.get? s := by
    rw [currentOrigin]
    cases hr : user.replicatedTrafficOrigins.get? s with
    | none => rfl
    | some r =>
      obtain ⟨hs, hepoch, -⟩ := h.origins s r hr
      rw [Option.filter_some, hepoch, h.stands, if_pos (hcycle node hnode s hs)]
  have hevidence : currentEvidence user (some limit) s = user.sharedQuotaEvidence.get? s := by
    rw [currentEvidence]
    cases he : user.sharedQuotaEvidence.get? s with
    | none => rfl
    | some e =>
      obtain ⟨htarget, hlimit⟩ := h.current s e he
      rw [Option.filter_some, htarget, hlimit, h.stands, if_pos (by simp)]
  rw [Dict.valueAt, PeerRecords.get?_peerOrigins, horigin, hevidence, counted, evidenceOf]
  cases he : user.sharedQuotaEvidence.get? s with
  | none => simp [size]
  | some e =>
    have hsame : ∀ p, user.replicatedTrafficOrigins.get? s = some p →
        p.epoch = (evidenceOrigin e).epoch := by
      intro p hp
      have hvalue : evidenceOf user s = some (evidenceOrigin e) := by
        rw [evidenceOf, he, Option.map_some]
      rw [(h.origins s p hp).2.1, (h.evidence s _ hvalue).2.1]
    exact (merge_same iso hsame).2

end Values

section Records

variable {iso : String → Option Stamp} {plan : Plan} {nodes : List String} {epochs : String → Epoch}
  {native : String → Nat} {node : String} {user user' : User}

/-- A record that goes on from another: honest, with as many bytes measured, and no source counts
less. -/
structure Continued (nodes : List String) (epochs : String → Epoch) (native : String → Nat)
    (limit : Nat) (node : String) (user user' : User) : Prop where
  honest : Honest nodes epochs native limit node user'
  measured : user'.upload + user'.download = user.upload + user.download
  counted : ∀ s, counted user s ≤ counted user' s

variable (hcycle : ∀ s ∈ nodes, ∀ t ∈ nodes, sameCycle (epochs s) (epochs t) = true)
  {observedAt : String} {expected : Epoch} {report : Report} {age : Option Int}

include hcycle in
theorem Honest.imported (h : Honest nodes epochs native plan.limit node user) (hnode : node ∈ nodes)
    {message : Export} (hepoch : ∃ s ∈ nodes, message.epoch = epochs s)
    (htrue : Truthful nodes epochs native message.origins.get?)
    (himport : message.importInto iso node user = (user', .ok ())) :
    Continued nodes epochs native plan.limit node user user' ∧
      ∀ s r, s ≠ node → message.origins.get? s = some r → Origin.total r ≤ counted user' s := by
  obtain ⟨base, merged, himports, rfl, -, -, hbase⟩ := importOrigins_ok himport
  obtain ⟨sender, hsender, hmessage⟩ := hepoch
  have hsame : sameCycle (epoch user) (incomingEpoch message.epoch.cycleStart.get
      (number message.epoch.manualResetAt) (some message.epoch)) = true := by
    rw [incomingEpoch, Option.getD_some, h.stands, hmessage]
    exact hcycle node hnode sender hsender
  obtain rfl : base = user := by
    obtain ⟨-, rfl⟩ | ⟨hother, -⟩ := hbase
    · rfl
    · rw [hsame] at hother
      cases hother
  have hstored : ∀ s r, s ≠ node → message.origins.get? s = some r →
      merged.replicatedTrafficOrigins.get? s =
      some (mergeOrigin iso (base.replicatedTrafficOrigins.get? s) r) := by
    intro s r hs hr
    rw [himports.merged s, if_neg hs, hr]
  have hkept : ∀ s, s = node ∨ message.origins.get? s = none →
      merged.replicatedTrafficOrigins.get? s = base.replicatedTrafficOrigins.get? s := by
    rintro s (rfl | hs)
    · rw [himports.merged s, if_pos rfl]
    · rw [himports.merged s, hs, ite_self]
  have horigins : ∀ s, (∃ r, s ≠ node ∧ message.origins.get? s = some r) ∨
      (s = node ∨ message.origins.get? s = none) := by
    intro s
    by_cases hs : s = node
    · exact .inr (.inl hs)
    cases hr : message.origins.get? s with
    | none => exact .inr (.inr rfl)
    | some r => exact .inl ⟨r, hs, rfl⟩
  have hsize : ∀ s, size (base.replicatedTrafficOrigins.get? s) ≤
      size (merged.replicatedTrafficOrigins.get? s) := by
    intro s
    obtain ⟨r, hs, hr⟩ | hs := horigins s
    · rw [hstored s r hs hr]
      exact (le_max_left _ _).trans (h.origins.merge iso (htrue s r hr)).2.ge
    · rw [hkept s hs]
  have htruthful : Truthful nodes epochs native merged.replicatedTrafficOrigins.get? := by
    intro s m hm
    obtain ⟨r, hs, hr⟩ | hs := horigins s
    · rw [hstored s r hs hr] at hm
      cases hm
      obtain ⟨hepoch, htotal⟩ := h.origins.merge iso (htrue s r hr)
      refine ⟨(htrue s r hr).1, hepoch, ?_⟩
      rw [htotal]
      exact max_le (h.origins.size_le s) (htrue s r hr).2.2
    · rw [hkept s hs] at hm
      exact h.origins s m hm
  have hevidence : merged.sharedQuotaEvidence = base.sharedQuotaEvidence := by rw [himports.rest]
  have hcounted : ∀ s, size (merged.replicatedTrafficOrigins.get? s) ≤
      counted { merged with nativeAccountingVersion := some 2 } s := fun s => le_max_left _ _
  refine ⟨⟨⟨?_, htruthful, ?_, ?_, ?_, ?_⟩, ?_, fun s => ?_⟩, fun s r hs hr => ?_⟩
  · rw [← h.stands, himports.rest]
    rfl
  · intro s r hr
    refine h.evidence s r ?_
    rwa [evidenceOf, ← hevidence]
  · intro s e he
    refine h.current s e ?_
    rwa [← hevidence]
  · rw [← h.apart.1]
    exact hkept node (.inl rfl)
  · rw [← h.apart.2, ← hevidence]
  · rw [himports.rest]
  · refine max_le_max (hsize s) (le_of_eq ?_)
    rw [evidenceOf, evidenceOf, ← hevidence]
  · refine le_trans ?_ (hcounted s)
    rw [hstored s r hs hr]
    exact (le_max_right _ _).trans (h.origins.merge iso (htrue s r hr)).2.ge

theorem observe_single (h : Network.observe iso plan user node report observedAt age expected =
    .ok user') :
    report.node ≠ node ∧
      observe iso user plan.account report.node observedAt (report.update plan expected) =
      .ok user' := by
  obtain ⟨users, happly, h⟩ := bind_eq_ok h
  obtain ⟨_, _, happly⟩ := bind_eq_ok happly
  obtain ⟨_, _, happly⟩ := bind_eq_ok happly
  obtain ⟨_, hsource, happly⟩ := bind_eq_ok happly
  obtain ⟨_, _, happly⟩ := bind_eq_ok happly
  obtain ⟨_, _, happly⟩ := bind_eq_ok happly
  refine ⟨(of_require hsource).2, ?_⟩
  have huser : (Dict.empty.set plan.userId user).get? plan.userId = some user := by
    rw [Dict.get?_set, if_pos rfl]
  have haccount : (Dict.empty.set plan.userId plan.account).get? plan.userId =
      some plan.account := by
    rw [Dict.get?_set, if_pos rfl]
  simp only [List.foldlM_cons, List.foldlM_nil, Report.update, huser, haccount,
    Option.getD_some] at happly
  obtain ⟨_, hstep, hdone⟩ := bind_eq_ok happly
  obtain ⟨observed, hobserved, hset⟩ := bind_eq_ok hstep
  cases hset
  cases hdone
  cases h
  rw [Dict.get?_set, if_pos rfl]
  exact hobserved

section

variable (h : Honest nodes epochs native plan.limit node user)
include h

theorem Honest.withEvidence {source : String} {e : Evidence}
    (hsource : source ∈ nodes ∧ e.sourceEpoch = epochs source ∧ e.nativeTotalBytes ≤ native source)
    (hother : source ≠ node) (hcurrent : e.targetEpoch = epochs node ∧ e.limitBytes = plan.limit)
    (hgrown : size (evidenceOf user source) ≤ e.nativeTotalBytes) :
    let user' := { user with sharedQuotaEvidence := user.sharedQuotaEvidence.set source e }
    Continued nodes epochs native plan.limit node user user' ∧
    e.nativeTotalBytes ≤ counted user' source := by
  intro user'
  have hevidence : ∀ s, user'.sharedQuotaEvidence.get? s =
      if s = source then some e else user.sharedQuotaEvidence.get? s := Dict.get?_set _ _ _
  have hvalue : ∀ s, evidenceOf user' s = if s = source then some (evidenceOrigin e)
      else evidenceOf user s := by
    intro s
    rw [evidenceOf, evidenceOf, hevidence s]
    split <;> rfl
  have hsize : ∀ s, size (evidenceOf user s) ≤ size (evidenceOf user' s) := by
    intro s
    rw [hvalue s]
    split
    next hs => exact hs ▸ hgrown
    · exact le_refl _
  refine ⟨⟨⟨h.stands, h.origins, ?_, ?_, h.apart.1, ?_⟩, rfl,
    fun s => max_le_max (le_refl _) (hsize s)⟩, ?_⟩
  · intro s r hr
    rw [hvalue s] at hr
    split at hr
    next hs =>
      cases hr
      exact hs ▸ hsource
    · exact h.evidence s r hr
  · intro s e' he'
    rw [hevidence s] at he'
    split at he'
    · cases he'
      exact hcurrent
    · exact h.current s e' he'
  · rw [hevidence node, if_neg (Ne.symm hother)]
    exact h.apart.2
  · refine le_trans ?_ (le_max_right _ _)
    rw [hvalue source, if_pos rfl]
    exact le_refl e.nativeTotalBytes

include hcycle in
theorem Honest.observed (hnode : node ∈ nodes)
    (hsource : report.node ∈ nodes) (hepoch : report.epoch = epochs report.node)
    (hle : report.total ≤ native report.node)
    (hobserve : Network.observe iso plan user node report observedAt age expected = .ok user') :
    Continued nodes epochs native plan.limit node user user' ∧
    report.total ≤ counted user' report.node := by
  obtain ⟨hother, hobserve⟩ := observe_single hobserve
  obtain ⟨identity, hobserved, ⟨-, rfl⟩ | ⟨hleft, -⟩⟩ := observe_ok hobserve
  · have hgrown : size (evidenceOf user report.node) ≤ report.total := by
      rw [evidenceOf]
      cases hprevious : user.sharedQuotaEvidence.get? report.node with
      | none => exact Nat.zero_le _
      | some previous =>
        have hcheck := hobserved.previous
        rw [hprevious, checkPrevious_iff] at hcheck
        have hvalue : evidenceOf user report.node = some (evidenceOrigin previous) := by
          rw [evidenceOf, hprevious, Option.map_some]
        have hold : previous.sourceEpoch = report.epoch :=
          (h.evidence _ _ hvalue).2.1.trans hepoch.symm
        obtain ⟨-, hle⟩ | hadvanced := hcheck.2.2
        · exact hle
        · exact absurd hold (ne_of_advanced hadvanced)
    exact h.withEvidence ⟨hsource, hepoch, hle⟩ hother ⟨h.stands, rfl⟩ hgrown
  · rw [h.stands] at hleft
    have hsame := hcycle node hnode report.node hsource
    rw [← hepoch] at hsame
    change sameCycle (epochs node) report.epoch = false at hleft
    rw [hsame] at hleft
    cases hleft

theorem Honest.exported (hnode : node ∈ nodes)
    (hnative : user.upload + user.download ≤ native node) {origins : Dict String Origin}
    (hexport : exportOrigins iso user node = .ok origins) :
    Truthful nodes epochs native origins.get? := by
  intro s r hr
  rw [exportOrigins_ok hexport] at hr
  split at hr
  next hs =>
    subst hs
    split at hr
    · cases hr
      exact ⟨hnode, h.stands, hnative⟩
    · cases hr
  next hs =>
    unfold exportedOrigin at hr
    split at hr
    next e he =>
      have hvalue : evidenceOf user s = some (evidenceOrigin e) := by
        rw [evidenceOf, (Option.filter_eq_some_iff.mp he).1, Option.map_some]
      have htrue := h.evidence s _ hvalue
      obtain ⟨hepoch, htotal⟩ := h.origins.merge iso htrue
      cases hr
      refine ⟨htrue.1, hepoch, ?_⟩
      rw [htotal]
      exact max_le (h.origins.size_le s) htrue.2.2
    · exact h.origins s r hr

end

end Records

section Runs

def Network.counted (net : Network) (node source : String) : Nat :=
  QuotaGossip.counted ((net.nodes.get? node).getD {}) source

def Grown (net net' : Network) : Prop :=
  (∀ n, net.native n ≤ net'.native n) ∧ ∀ n s, net.counted n s ≤ net'.counted n s

theorem Grown.refl (net : Network) : Grown net net := ⟨fun _ => le_refl _, fun _ _ => le_refl _⟩

theorem Grown.trans {net net' net'' : Network} (h : Grown net net') (h' : Grown net' net'') :
    Grown net net'' :=
  ⟨fun n => (h.1 n).trans (h'.1 n), fun n s => (h.2 n s).trans (h'.2 n s)⟩

structure Inv (plan : Plan) (nodes : List String) (epochs : String → Epoch)
    (net : Network) : Prop where
  keys : net.nodes.keys = nodes
  honest : ∀ n user, net.nodes.get? n = some user → Honest nodes epochs net.native plan.limit n user
  exports : ∀ m ∈ net.exports, (∃ s ∈ nodes, m.epoch = epochs s) ∧
    Truthful nodes epochs net.native m.origins.get?
  reports : ∀ p ∈ net.reports, p.node ∈ nodes ∧ p.epoch = epochs p.node ∧
    p.total ≤ net.native p.node
  received : ∀ r ∈ net.received, r.total ≤ net.counted r.node r.source

variable {iso : String → Option Stamp} {plan : Plan} {nodes : List String} {epochs : String → Epoch}
  {net : Network} {node : String} {user user' : User}

theorem Inv.mem (h : Inv plan nodes epochs net) (hget : net.nodes.get? node = some user) :
    node ∈ nodes :=
  h.keys ▸ Dict.mem_keys_iff.mpr ⟨user, hget⟩

theorem Inv.continued (h : Inv plan nodes epochs net) (hget : net.nodes.get? node = some user)
    (hcontinued : Continued nodes epochs net.native plan.limit node user user') {new : List Receipt}
    (hnew : ∀ r ∈ new, r.node = node ∧ r.total ≤ QuotaGossip.counted user' r.source) :
    let net' := { net with nodes := net.nodes.set node user', received := new ++ net.received }
    Inv plan nodes epochs net' ∧ Grown net net' := by
  intro net'
  have hnodes : ∀ n, net'.nodes.get? n = if n = node then some user'
    else net.nodes.get? n := Dict.get?_set _ _ _
  have hnative : net'.native = net.native := by
    funext n
    rw [Network.native, Network.native, Dict.valueAt, Dict.valueAt, hnodes n]
    split
    next hn => simp [hn, hget, hcontinued.measured]
    · rfl
  have hcounted : ∀ n s, net.counted n s ≤ net'.counted n s := by
    intro n s
    rw [Network.counted, Network.counted, hnodes n]
    split
    next hn =>
      rw [hn, hget]
      exact hcontinued.counted s
    · exact le_refl _
  refine ⟨⟨?_, ?_, hnative ▸ h.exports, hnative ▸ h.reports, ?_⟩,
    fun n => (congrFun hnative n).ge, hcounted⟩
  · rw [← h.keys]
    exact Dict.keys_set_of_mem (Dict.mem_keys_iff.mpr ⟨user, hget⟩) user'
  · intro n user'' hn
    rw [hnodes n] at hn
    rw [hnative]
    split at hn
    next heq =>
      cases hn
      exact heq ▸ hcontinued.honest
    · exact h.honest n user'' hn
  · intro r hr
    obtain hr | hr := List.mem_append.mp hr
    · obtain ⟨hnode, htotal⟩ := hnew r hr
      rw [Network.counted, hnodes r.node, if_pos hnode]
      exact htotal
    · exact (h.received r hr).trans (hcounted r.node r.source)

variable (hcycle : ∀ s ∈ nodes, ∀ t ∈ nodes, sameCycle (epochs s) (epochs t) = true)

theorem Inv.grow (h : Inv plan nodes epochs net) (node : String) (growth : Bytes) :
    let net' := { net with
      nodes := net.nodes.modify node (fun user => user.withBytes (user.bytes + growth)) }
    Inv plan nodes epochs net' ∧ Grown net net' := by
  intro net'
  have hnodes : ∀ n, net'.nodes.get? n = if n = node then
      (net.nodes.get? n).map (fun user => user.withBytes (user.bytes + growth))
        else net.nodes.get? n := by
    intro n
    rw [Dict.get?_modify]
  have hnative : ∀ n, net.native n ≤ net'.native n := by
    intro n
    rw [Network.native, Network.native, Dict.valueAt, Dict.valueAt, hnodes n]
    split
    · cases net.nodes.get? n with
      | none => exact le_refl _
      | some user =>
        simp only [Option.map_some, Option.getD_some, User.withBytes, User.bytes, Prod.fst_add,
          Prod.snd_add]
        omega
    · exact le_refl _
  have hcounted : ∀ n s, net'.counted n s = net.counted n s := by
    intro n s
    rw [Network.counted, Network.counted, hnodes n]
    split
    · cases net.nodes.get? n <;> rfl
    · rfl
  refine ⟨⟨?_, ?_, ?_, ?_, ?_⟩, hnative, fun n s => (hcounted n s).ge⟩
  · rw [← h.keys]
    exact Dict.keys_modify _ _ _
  · intro n user hn
    rw [hnodes n] at hn
    split at hn
    · obtain ⟨old, hold, rfl⟩ := Option.map_eq_some_iff.mp hn
      have hhonest := (h.honest n old hold).mono hnative
      exact { hhonest with }
    · exact (h.honest n user hn).mono hnative
  · intro m hm
    obtain ⟨hepoch, htrue⟩ := h.exports m hm
    exact ⟨hepoch, htrue.mono hnative⟩
  · intro p hp
    obtain ⟨hmem, hepoch, htotal⟩ := h.reports p hp
    exact ⟨hmem, hepoch, htotal.trans (hnative p.node)⟩
  · intro r hr
    rw [hcounted]
    exact h.received r hr

theorem native_of_get? (hget : net.nodes.get? node = some user) :
    net.native node = user.upload + user.download :=
  Dict.valueAt_of_get? hget _

section

variable (h : Inv plan nodes epochs net)
include h

theorem Inv.export (hget : net.nodes.get? node = some user) {origins : Dict String Origin}
    (hexport : exportOrigins iso user node = .ok origins) :
    Inv plan nodes epochs { net with exports := net.exports ++ [⟨epoch user, origins⟩] } := by
  have hhonest := h.honest node user hget
  refine ⟨h.keys, h.honest, fun m hm => ?_, h.reports, h.received⟩
  obtain hm | hm := List.mem_append.mp hm
  · exact h.exports m hm
  · obtain rfl := List.mem_singleton.mp hm
    exact ⟨⟨node, h.mem hget, hhonest.stands⟩,
      hhonest.exported (h.mem hget) (native_of_get? hget).ge hexport⟩

theorem Inv.inspect (hget : net.nodes.get? node = some user) :
    Inv plan nodes epochs { net with
      reports := net.reports ++ [⟨node, user.upload + user.download, epoch user⟩] } := by
  refine ⟨h.keys, h.honest, h.exports, fun p hp => ?_, h.received⟩
  obtain hp | hp := List.mem_append.mp hp
  · exact h.reports p hp
  · obtain rfl := List.mem_singleton.mp hp
    exact ⟨h.mem hget, (h.honest node user hget).stands, (native_of_get? hget).ge⟩

include hcycle in
theorem Inv.receive (hget : net.nodes.get? node = some user) {message : Export}
    (hmessage : message ∈ net.exports) :
    Inv plan nodes epochs (net.receive iso node user message) ∧
    Grown net (net.receive iso node user message) := by
  unfold Network.receive
  split
  next user' himport =>
    obtain ⟨hepoch, htrue⟩ := h.exports message hmessage
    obtain ⟨hcontinued, hreceived⟩ :=
      (h.honest node user hget).imported hcycle (h.mem hget) hepoch htrue himport
    refine h.continued hget hcontinued (fun r hr => ?_)
    obtain ⟨⟨s, o⟩, hentry, rfl⟩ := List.mem_map.mp hr
    obtain ⟨hentry, hne⟩ := List.mem_filter.mp hentry
    exact ⟨rfl, hreceived s o (by simpa using hne) (Dict.mem_entries_iff.mp hentry)⟩
  · exact ⟨h, Grown.refl net⟩

include hcycle in
theorem Inv.next (step : Step) :
    Inv plan nodes epochs (net.next iso plan step) ∧ Grown net (net.next iso plan step) := by
  cases step with
  | grow node growth => exact h.grow node growth
  | exportOrigins node =>
    simp only [Network.next]
    split
    · exact ⟨h, Grown.refl net⟩
    next user hget =>
      split
      next origins hexport => exact ⟨h.export hget hexport, Grown.refl net⟩
      · exact ⟨h, Grown.refl net⟩
  | importOrigins node number =>
    simp only [Network.next]
    split
    next user message hget hmessage => exact h.receive hcycle hget (List.mem_of_getElem? hmessage)
    · exact ⟨h, Grown.refl net⟩
  | inspect node =>
    simp only [Network.next]
    split
    · exact ⟨h, Grown.refl net⟩
    next user hget => exact ⟨h.inspect hget, Grown.refl net⟩
  | observe node number observedAt age expected =>
    simp only [Network.next]
    split
    next user report hget hreport =>
      split
      next user' hobserve =>
        obtain ⟨hsource, hepoch, hle⟩ := h.reports report (List.mem_of_getElem? hreport)
        obtain ⟨hcontinued, hreceived⟩ :=
          (h.honest node user hget).observed hcycle (h.mem hget) hsource hepoch hle hobserve
        have hnew : ∀ r ∈ [Receipt.mk node report.node report.total], r.node = node ∧
            r.total ≤ QuotaGossip.counted user' r.source := by
          intro r hr
          obtain rfl := List.mem_singleton.mp hr
          exact ⟨rfl, hreceived⟩
        exact h.continued hget hcontinued hnew
      · exact ⟨h, Grown.refl net⟩
    · exact ⟨h, Grown.refl net⟩

include hcycle in
theorem Inv.run (steps : List Step) :
    Inv plan nodes epochs (run (Network.next iso plan) steps net) ∧
    Grown net (run (Network.next iso plan) steps net) := by
  induction steps generalizing net with
  | nil => exact ⟨h, Grown.refl net⟩
  | cons step steps ih =>
    obtain ⟨hnext, hgrown⟩ := h.next hcycle step
    obtain ⟨hrun, hgrown'⟩ := ih hnext
    exact ⟨hrun, hgrown.trans hgrown'⟩

include hcycle in
theorem Inv.peerUsed (hnode : node ∈ nodes) : net.peerUsed iso plan node =
    min maxBytes ((nodes.filter (· ≠ node)).map (net.counted node)).sum := by
  obtain ⟨user, hget⟩ := Dict.mem_keys_iff.mp (h.keys ▸ hnode)
  have hhonest := h.honest node user hget
  have hcounted : net.counted node = QuotaGossip.counted user := by
    funext s
    rw [Network.counted, hget, Option.getD_some]
  have hnodup : (nodes.filter (· ≠ node)).Nodup := (h.keys ▸ net.nodes.nodup : nodes.Nodup).filter _
  have hzero : ∀ s ∉ nodes.filter (· ≠ node), QuotaGossip.counted user s = 0 := by
    intro s hs
    apply hhonest.counted_eq_zero
    simp only [List.mem_filter, decide_eq_true_eq, not_and_or, not_not] at hs
    exact hs
  rw [Network.peerUsed, hget, Option.getD_some, peerUsedBytes, Dict.sum_entries, hcounted,
    Dict.sum_map_eq_finsum hnodup hzero]
  congr 2
  funext s
  exact hhonest.get?_peerOrigins hcycle hnode s

end

structure Start (nodes : Dict String User) : Prop where
  unknown : ∀ n user, nodes.get? n = some user →
    user.replicatedTrafficOrigins = Dict.empty ∧ user.sharedQuotaEvidence = Dict.empty
  cycle : ∀ n m user user', nodes.get? n = some user → nodes.get? m = some user' →
    sameCycle (epoch user) (epoch user') = true

instance (nodes : Dict String User) : Decidable (Start nodes) :=
  decidable_of_iff
    ((∀ e ∈ nodes.entries, e.2.replicatedTrafficOrigins = Dict.empty ∧
      e.2.sharedQuotaEvidence = Dict.empty) ∧
      ∀ e ∈ nodes.entries, ∀ e' ∈ nodes.entries, sameCycle (epoch e.2) (epoch e'.2) = true)
    ⟨fun h => ⟨fun n user hn => h.1 (n, user) (Dict.mem_entries_iff.mpr hn),
      fun n m user user' hn hm =>
        h.2 (n, user) (Dict.mem_entries_iff.mpr hn) (m, user') (Dict.mem_entries_iff.mpr hm)⟩,
      fun h => ⟨fun e he => h.unknown e.1 e.2 (Dict.mem_entries_iff.mp he), fun e he e' he' =>
        h.cycle e.1 e'.1 e.2 e'.2 (Dict.mem_entries_iff.mp he) (Dict.mem_entries_iff.mp he')⟩⟩

def epochsOf (nodes : Dict String User) (node : String) : Epoch := epoch ((nodes.get? node).getD {})

theorem Start.sameCycle {nodes : Dict String User} (h : Start nodes) :
    ∀ s ∈ nodes.keys, ∀ t ∈ nodes.keys, sameCycle (epochsOf nodes s) (epochsOf nodes t) = true := by
  intro s hs t ht
  obtain ⟨user, huser⟩ := Dict.mem_keys_iff.mp hs
  obtain ⟨user', huser'⟩ := Dict.mem_keys_iff.mp ht
  rw [epochsOf, epochsOf, huser, huser']
  exact h.cycle s t user user' huser huser'

theorem Start.inv {nodes : Dict String User} (h : Start nodes) (plan : Plan) :
    Inv plan nodes.keys (epochsOf nodes) { nodes := nodes } := by
  refine ⟨rfl, fun n user hn => ?_, by simp, by simp, by simp⟩
  obtain ⟨horigins, hevidence⟩ := h.unknown n user hn
  refine ⟨?_, ?_, ?_, ?_, ?_⟩
  · rw [epochsOf, hn]
    rfl
  · intro s r hr
    rw [horigins] at hr
    cases hr
  · intro s r hr
    rw [evidenceOf, hevidence] at hr
    cases hr
  · intro s e he
    rw [hevidence] at he
    cases he
  · rw [horigins, hevidence]
    exact ⟨rfl, rfl⟩

end Runs

/-- At every node of every run: not more than the others have measured, nothing of the node itself,
never less than before, and all of it, up to the largest number, when the last values of the others
are in. -/
theorem quota_counts_once (iso : String → Option Stamp) (plan : Plan) (nodes : Dict String User)
    (hstart : Start nodes) (first rest : List Step) (n : String) (hn : n ∈ nodes.keys) :
    let v := run (Network.next iso plan) first { nodes := nodes }
    let v' := run (Network.next iso plan) rest v
    v.peerUsed iso plan n ≤ v.others n ∧
    (peerOrigins iso ((v.nodes.get? n).getD {}) (some plan.limit)).get? n = none ∧
    v.peerUsed iso plan n ≤ v'.peerUsed iso plan n ∧
    ((∀ s ∈ nodes.keys, s ≠ n → v.native s = 0 ∨ ⟨n, s, v.native s⟩ ∈ v.received) →
      v.peerUsed iso plan n = min maxBytes (v.others n)) := by
  intro v v'
  have hcycle := hstart.sameCycle
  have hv : Inv plan nodes.keys (epochsOf nodes) v := ((hstart.inv plan).run hcycle first).1
  obtain ⟨hv', hgrown⟩ : Inv plan nodes.keys (epochsOf nodes) v' ∧ Grown v v' := hv.run hcycle rest
  obtain ⟨user, hget⟩ := Dict.mem_keys_iff.mp (hv.keys ▸ hn)
  have hhonest := hv.honest n user hget
  have hle : ∀ s, v.counted n s ≤ v.native s := by
    intro s
    rw [Network.counted, hget]
    exact hhonest.counted_le s
  rw [Network.others, hv.keys, hv.peerUsed hcycle hn, hv'.peerUsed hcycle hn]
  refine ⟨?_, ?_, ?_, fun hall => ?_⟩
  · exact (min_le_right _ _).trans (List.sum_le_sum (fun s _ => hle s))
  · rw [hget, Option.getD_some, get?_peerOrigins, currentEvidence, currentOrigin, hhonest.apart.1,
      hhonest.apart.2]
    rfl
  · exact min_le_min (le_refl _) (List.sum_le_sum (fun s _ => hgrown.2 n s))
  · congr 2
    apply List.map_congr_left
    intro s hs
    obtain ⟨hs, hne⟩ := List.mem_filter.mp hs
    apply le_antisymm (hle s)
    obtain hzero | hreceived := hall s hs (by simpa using hne)
    · rw [hzero]
      exact Nat.zero_le _
    · exact hv.received _ hreceived

section Examples

def threeNodes : Dict String User := ((Dict.empty.set "a" {}).set "b" {}).set "c" {}

def shared : Plan := ⟨"bob", "digest", 1000⟩

def relayed : List Step :=
  [.grow "b" (30, 40), .exportOrigins "b", .importOrigins "c" 0, .exportOrigins "c",
    .importOrigins "a" 1, .importOrigins "a" 0, .grow "b" (20, 0), .inspect "b",
    .observe "a" 0 "t" (some 1) (epoch {}), .importOrigins "a" 0]

theorem relayed_counts_once :
    let v := run (Network.next (fun _ => none) shared) relayed { nodes := threeNodes }
    let v' := run (Network.next (fun _ => none) shared) [.grow "c" (1, 1)] v
    v.peerUsed (fun _ => none) shared "a" ≤ v.others "a" ∧
    (peerOrigins (fun _ => none) ((v.nodes.get? "a").getD {}) (some shared.limit)).get? "a" = none ∧
    v.peerUsed (fun _ => none) shared "a" ≤ v'.peerUsed (fun _ => none) shared "a" ∧
    ((∀ s ∈ threeNodes.keys, s ≠ "a" → v.native s = 0 ∨ ⟨"a", s, v.native s⟩ ∈ v.received) →
      v.peerUsed (fun _ => none) shared "a" = min maxBytes (v.others "a")) :=
  quota_counts_once (fun _ => none) shared threeNodes (by decide +kernel) relayed
    [.grow "c" (1, 1)] "a" (by decide)

/-- The last values have come in, and the sum is more than the largest number. -/
theorem sum_above_cap :
    let v := run (Network.next (fun _ => none) shared)
      [.grow "b" (maxBytes, 0), .grow "c" (1, 0), .exportOrigins "b", .exportOrigins "c",
        .importOrigins "a" 0, .importOrigins "a" 1] { nodes := threeNodes }
    (∀ s ∈ threeNodes.keys, s ≠ "a" → ⟨"a", s, v.native s⟩ ∈ v.received) ∧
      v.others "a" = maxBytes + 1 ∧ v.peerUsed (fun _ => none) shared "a" = maxBytes := by
  decide +kernel

end Examples

end NodeManager.QuotaGossip
