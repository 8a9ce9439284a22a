import NodeManager.RuntimeCounters
import NodeManager.Runs

namespace NodeManager.CounterPostings

open Dictionary Outcomes RuntimeCounters TrafficRecords

section Books

def ofCredential (postings : List Posting) (instanceId : String) (key : CounterKey) :
    List Posting :=
  postings.filter (fun p => p.instanceId = instanceId ∧ p.key.legacy = key.legacy)

def lastOf (postings : List Posting) (instanceId : String) (key : CounterKey) : Option Posting :=
  postings.find? (fun p => p.instanceId = instanceId ∧ p.key = key)

/-- The posting that a counter continues, latest first: its own last one, or that of its credential
if this had no id yet. -/
def standing (postings : List Posting) (instanceId : String) (key : CounterKey) : Option Posting :=
  (lastOf postings instanceId key).or
    ((ofCredential postings instanceId key).head?.filter (fun p => p.key.id = ""))

structure Books (acknowledged : List (String × CounterKey)) (instanceId : String)
    (rows : Dict CounterKey Baseline) (postings : List Posting) : Prop where
  numbered : ∀ key, key.id ≠ "" → (instanceId, key) ∉ acknowledged →
    (lastOf postings instanceId key).map Posting.value = (rows.get? key).map Baseline.bytes
  plain : ∀ key, key.id = "" →
    ((ofCredential postings instanceId key).head?.filter (fun p => p.key.id = "")).map
    Posting.value =
      (rows.get? key).map Baseline.bytes
  apart : ∀ key b, key.id ≠ "" → rows.get? key = some b → rows.get? key.legacy = none

def Offered (acknowledged : List (String × CounterKey)) (instanceId : String)
    (key : CounterKey) : Prop :=
  ∀ k, (instanceId, k) ∈ acknowledged → k ≠ key ∧ k.legacy ≠ key

structure Continues (earlier : List Posting) (q : Posting) : Prop where
  start : q.start = match standing earlier q.instanceId q.key with
    | some p => p.value
    | none => if q.migrated then q.value else 0
  le : q.start ≤ q.value

variable {acknowledged : List (String × CounterKey)} {instanceId : String}
  {rows : Dict CounterKey Baseline} {postings : List Posting} {key : CounterKey}

theorem legacy_eq_self (h : key.id = "") : key.legacy = key := by
  obtain ⟨inbound, user, id⟩ := key
  simp only at h
  rw [CounterKey.legacy, h]

theorem Books.lastOf_plain (hbooks : Books acknowledged instanceId rows postings)
    (hplain : ∀ key b, rows.get? key = some b → key.id = "") (hkey : key.id = "")
    (hoffered : Offered acknowledged instanceId key) :
    lastOf postings instanceId key = (ofCredential postings instanceId key).head? := by
  have hids : ∀ p ∈ postings, p.instanceId = instanceId → p.key.legacy = key → p.key = key := by
    intro p hp hinstance hlegacy
    by_cases hid : p.key.id = ""
    · rw [← hlegacy, legacy_eq_self hid]
    have hnot : (instanceId, p.key) ∉ acknowledged := fun hack => (hoffered p.key hack).2 hlegacy
    have hlast := hbooks.numbered p.key hid hnot
    cases hrow : rows.get? p.key with
    | some b => exact absurd (hplain p.key b hrow) hid
    | none =>
      rw [hrow, Option.map_none, Option.map_eq_none_iff, lastOf, List.find?_eq_none] at hlast
      exact absurd (by simp [hinstance]) (hlast p hp)
  rw [lastOf, ← List.head?_filter, ofCredential]
  congr 1
  apply List.filter_congr
  intro p hp
  rw [decide_eq_decide, legacy_eq_self hkey]
  constructor
  · rintro ⟨hinstance, rfl⟩
    exact ⟨hinstance, legacy_eq_self hkey⟩
  · rintro ⟨hinstance, hlegacy⟩
    exact ⟨hinstance, hids p hp hinstance hlegacy⟩

end Books

section Rows

structure Applied (pass : Pass) (s : Progress) (row : Row) (s' : Progress)
    (q : Posting) : Prop where
  fresh : row.key ∉ s.seen
  instanceId : q.instanceId = pass.instanceId
  key : q.key = row.key
  value : q.value = row.bytes
  migrated : q.migrated = pass.migrate
  start : q.start = match (pass.previous s.rows row.key).1 with
    | some b => b.bytes
    | none => if pass.migrate then row.bytes else 0
  le : q.start ≤ q.value
  owner : rowOwner pass.authMap pass.historicalAliases row.key.user
    (pass.previous s.rows row.key).1 = .ok q.owner
  users : credit s.users q.owner q.growth = .ok s'.users
  rows : s'.rows = (pass.previous s.rows row.key).2.set row.key ⟨row.bytes, q.owner⟩
  pending : s'.pending = match pass.version with
    | .one => s.pending
    | .two => if row.retirable then s.pending.set row.key row else s.pending.erase row.key
  seen : s'.seen = row.key :: s.seen
  postings : s'.postings = q :: s.postings

variable {pass : Pass} {s s' : Progress} {row : Row} {q : Posting}
  {acknowledged : List (String × CounterKey)} {postings : List Posting} {instanceId : String}
  {key : CounterKey} {users : Dict String User} {rowList : List Row}

theorem applyRow_ok (h : pass.applyRow s row = .ok s') : ∃ q, Applied pass s row s' q := by
  obtain ⟨_, hfresh, h⟩ := bind_eq_ok h
  obtain ⟨owner, howner, h⟩ := bind_eq_ok h
  obtain ⟨_, hvalid, h⟩ := bind_eq_ok h
  obtain ⟨_, hle, h⟩ := bind_eq_ok h
  obtain ⟨users, husers, h⟩ := bind_eq_ok h
  cases h
  refine ⟨_, of_require hfresh, rfl, rfl, rfl, rfl, rfl, of_require hle, ?_, husers, rfl,
    rfl, rfl, rfl⟩
  exact howner

section Previous

variable {rows : Dict CounterKey Baseline}

theorem previous_one (hversion : pass.version = .one) :
    pass.previous rows key = (rows.get? key, rows) := by
  unfold Pass.previous
  cases hget : rows.get? key <;> simp [hversion]

theorem previous_known {b : Baseline} (hget : rows.get? key = some b) :
    pass.previous rows key = (some b, rows) := by
  simp only [Pass.previous, hget]

theorem previous_two (hversion : pass.version = .two) (hget : rows.get? key = none) :
    pass.previous rows key = (rows.get? key.legacy, rows.erase key.legacy) := by
  simp only [Pass.previous, hget, hversion]

end Previous

theorem Applied.continues (h : Applied pass s row s' q)
    (hbooks : Books acknowledged pass.instanceId s.rows postings)
    (hid : row.key.id = "" ↔ pass.version = .one)
    (hoffered : Offered acknowledged pass.instanceId row.key)
    (hplain : pass.version = .one → ∀ key b, s.rows.get? key = some b → key.id = "") :
    Continues postings q := by
  refine ⟨?_, h.le⟩
  have hprevious : (standing postings pass.instanceId row.key).map Posting.value =
      (pass.previous s.rows row.key).1.map Baseline.bytes := by
    unfold standing
    cases hversion : pass.version with
    | one =>
      have hkey := hid.mpr hversion
      have hlast := hbooks.lastOf_plain (hplain hversion) hkey hoffered
      rw [previous_one hversion, ← hbooks.plain row.key hkey, ← hlast]
      cases hfound : lastOf postings pass.instanceId row.key with
      | none => rfl
      | some p =>
        have hp := List.find?_some hfound
        simp only [decide_eq_true_eq] at hp
        simp [Option.filter_some, hp.2, hkey]
    | two =>
      have hkey : row.key.id ≠ "" := fun heq => by simp [hid.mp heq] at hversion
      have hlast := hbooks.numbered row.key hkey (fun hack => (hoffered row.key hack).1 rfl)
      cases hget : s.rows.get? row.key with
      | some b =>
        rw [hget] at hlast
        obtain ⟨p, hp, hvalue⟩ := Option.map_eq_some_iff.mp hlast
        simp [previous_known hget, hp, hvalue]
      | none =>
        rw [hget, Option.map_none, Option.map_eq_none_iff] at hlast
        rw [previous_two hversion hget, ← hbooks.plain row.key.legacy rfl, hlast]
        rfl
  rw [h.start, h.instanceId, h.key, h.migrated, h.value]
  cases hstanding : standing postings pass.instanceId row.key with
  | none =>
    rw [hstanding, Option.map_none, eq_comm, Option.map_eq_none_iff] at hprevious
    rw [hprevious]
  | some p =>
    rw [hstanding, Option.map_some, eq_comm, Option.map_eq_some_iff] at hprevious
    obtain ⟨b, hb, hvalue⟩ := hprevious
    rw [hb]
    exact hvalue

theorem lastOf_cons : lastOf (q :: postings) instanceId key =
      if q.instanceId = instanceId ∧ q.key = key then some q
      else lastOf postings instanceId key := by
  simp only [lastOf, List.find?_cons]
  by_cases h : q.instanceId = instanceId ∧ q.key = key <;> simp [h]

theorem ofCredential_cons : ofCredential (q :: postings) instanceId key =
      if q.instanceId = instanceId ∧
      q.key.legacy = key.legacy then q :: ofCredential postings instanceId key
      else ofCredential postings instanceId key := by
  simp only [ofCredential, List.filter_cons, decide_eq_true_eq]

theorem Applied.books_one (h : Applied pass s row s' q)
    (hbooks : Books acknowledged pass.instanceId s.rows postings) (hversion : pass.version = .one)
    (hkey : row.key.id = "") (hplain : ∀ key b, s.rows.get? key = some b → key.id = "") :
    Books acknowledged pass.instanceId s'.rows (q :: postings) := by
  have hrows : s'.rows = s.rows.set row.key ⟨row.bytes, q.owner⟩ := by
    rw [h.rows, previous_one hversion]
  rw [hrows]
  constructor
  · intro key hid hnot
    have hne : key ≠ row.key := fun heq => hid (heq ▸ hkey)
    rw [lastOf_cons, if_neg (fun heq => hne (heq.2.symm.trans h.key)), Dict.get?_set, if_neg hne]
    exact hbooks.numbered key hid hnot
  · intro key hid
    rw [ofCredential_cons, Dict.get?_set, h.instanceId, h.key, legacy_eq_self hid,
      legacy_eq_self hkey]
    by_cases heq : key = row.key
    · subst heq
      simp [Option.filter_some, h.key, hkey, h.value]
    · rw [if_neg heq, if_neg (fun hsame => heq hsame.2.symm)]
      exact hbooks.plain key hid
  · intro key b hid hget
    rw [Dict.get?_set] at hget
    split at hget
    next heq => exact absurd (heq ▸ hkey) hid
    next => exact absurd (hplain key b hget) hid

theorem Applied.books_two (h : Applied pass s row s' q)
    (hbooks : Books acknowledged pass.instanceId s.rows postings) (hversion : pass.version = .two)
    (hkey : row.key.id ≠ "") :
    Books acknowledged pass.instanceId s'.rows (q :: postings) := by
  have hlegacy : ∀ key : CounterKey, key.id ≠ "" → key ≠ row.key.legacy := by
    rintro key hid rfl
    exact hid rfl
  have hrows : ∀ key, s'.rows.get? key = if key = row.key then some ⟨row.bytes, q.owner⟩
      else if key = row.key.legacy then none else s.rows.get? key := by
    intro key
    rw [h.rows]
    cases hget : s.rows.get? row.key with
    | some b =>
      rw [previous_known hget, Dict.get?_set]
      split
      · rfl
      split
      next heq => rw [heq, hbooks.apart row.key b hkey hget]
      · rfl
    | none => rw [previous_two hversion hget, Dict.get?_set, Dict.get?_erase]
  constructor
  · intro key hid hnot
    rw [lastOf_cons, hrows, if_neg (hlegacy key hid), h.instanceId, h.key]
    by_cases heq : key = row.key
    · simp [heq, h.value]
    · rw [if_neg heq, if_neg (fun hsame => heq hsame.2.symm)]
      exact hbooks.numbered key hid hnot
  · intro key hid
    have hne : key ≠ row.key := fun heq => hkey (heq ▸ hid)
    rw [ofCredential_cons, hrows, if_neg hne, h.instanceId, h.key, legacy_eq_self hid]
    by_cases heq : key = row.key.legacy
    · simp [heq, Option.filter_some, h.key, hkey]
    · rw [if_neg heq, if_neg (fun hsame => heq hsame.2.symm)]
      exact hbooks.plain key hid
  · intro key b hid hget
    rw [hrows] at hget ⊢
    have hne : key.legacy ≠ row.key := fun heq => hkey (heq ▸ rfl)
    rw [if_neg hne]
    split
    · rfl
    next hother =>
      have hkey' : key ≠ row.key := fun heq => hother (by rw [heq])
      rw [if_neg hkey', if_neg (hlegacy key hid)] at hget
      exact hbooks.apart key b hid hget

def credits (postings : List Posting) (userId : String) : Bytes :=
  ((postings.filter (fun q => q.owner = some userId)).map Posting.growth).sum

theorem credits_cons (q : Posting) (postings : List Posting) (userId : String) :
    credits (q :: postings) userId =
    (if q.owner = some userId then q.growth else 0) + credits postings userId := by
  by_cases h : q.owner = some userId <;> simp [credits, h]

theorem credits_append (later earlier : List Posting) (userId : String) :
    credits (later ++ earlier) userId = credits later userId + credits earlier userId := by
  simp [credits]

theorem credit_ok {users' : Dict String User} {owner : Option String} {growth : Bytes}
    (h : credit users owner growth = .ok users') (userId : String) :
    bytesOf users' userId = bytesOf users userId + if owner = some userId then growth else 0 := by
  unfold credit at h
  split at h
  · cases h
    simp
  next name =>
    dsimp only at h
    split at h
    · cases h
    cases h
    rw [bytesOf_set]
    by_cases heq : userId = name
    · simp [heq, bytesOf]
    · simp [heq, Ne.symm heq]

def Chained (postings : List Posting) : Prop :=
  ∀ q earlier, (q :: earlier) <:+ postings → Continues earlier q

theorem chained_cons (hq : Continues postings q) (h : Chained postings) :
    Chained (q :: postings) := by
  intro p earlier hsuffix
  obtain heq | hsuffix := List.suffix_cons_iff.mp hsuffix
  · cases heq
    exact hq
  · exact h p earlier hsuffix

structure Going (acknowledged : List (String × CounterKey)) (earlier : List Posting)
    (users : Dict String User) (pass : Pass) (s : Progress) : Prop where
  books : Books acknowledged pass.instanceId s.rows (s.postings ++ earlier)
  chained : Chained (s.postings ++ earlier)
  credited : ∀ u, bytesOf s.users u = bytesOf users u + credits s.postings u
  own : ∀ p ∈ s.postings, p.instanceId = pass.instanceId ∧ p.migrated = pass.migrate
  pending : ∀ key ∈ s.pending.keys, key.id ≠ ""
  plain : pass.version = .one → ∀ key b, s.rows.get? key = some b → key.id = ""

theorem Going.applyRow {earlier : List Posting} (hs : Going acknowledged earlier users pass s)
    (hid : row.key.id = "" ↔ pass.version = .one)
    (hoffered : Offered acknowledged pass.instanceId row.key) (h : pass.applyRow s row = .ok s') :
    Going acknowledged earlier users pass s' := by
  obtain ⟨q, hq⟩ := applyRow_ok h
  have hcontinues := hq.continues hs.books hid hoffered hs.plain
  have hcredited : ∀ u, bytesOf s'.users u = bytesOf users u + credits s'.postings u := by
    intro u
    rw [credit_ok hq.users u, hs.credited u, hq.postings, credits_cons, add_assoc,
      add_comm (credits s.postings u)]
  have hown : ∀ p ∈ s'.postings, p.instanceId = pass.instanceId ∧ p.migrated = pass.migrate := by
    rw [hq.postings]
    simp only [List.forall_mem_cons]
    exact ⟨⟨hq.instanceId, hq.migrated⟩, hs.own⟩
  have hchained : Chained (s'.postings ++ earlier) := by
    rw [hq.postings]
    exact chained_cons hcontinues hs.chained
  cases hversion : pass.version with
  | one =>
    have hkey := hid.mpr hversion
    refine ⟨?_, hchained, hcredited, hown, ?_, ?_⟩
    · rw [hq.postings]
      exact hq.books_one hs.books hversion hkey (hs.plain hversion)
    · rw [hq.pending, hversion]
      exact hs.pending
    intro _ key b hget
    rw [hq.rows, previous_one hversion, Dict.get?_set] at hget
    split at hget
    next heq => exact heq ▸ hkey
    next => exact hs.plain hversion key b hget
  | two =>
    have hkey : row.key.id ≠ "" := fun heq => by simp [hid.mp heq] at hversion
    refine ⟨?_, hchained, hcredited, hown, ?_, ?_⟩
    · rw [hq.postings]
      exact hq.books_two hs.books hversion hkey
    · rw [hq.pending, hversion]
      dsimp only
      intro key hmem
      split at hmem
      · obtain rfl | hmem := Dict.mem_keys_set.mp hmem
        · exact hkey
        · exact hs.pending key hmem
      · exact hs.pending key (Dict.mem_keys_erase.mp hmem).2
    · intro hone
      cases hversion.symm.trans hone

theorem rows_kept_one (hversion : pass.version = .one) (h : rowList.foldlM pass.applyRow s = .ok s')
    (hkey : key ∈ s.rows.keys) : key ∈ s'.rows.keys := by
  refine foldlM_ok (motive := fun _ t => key ∈ t.rows.keys) ?_ hkey h
  intro _ t row t' _ ht hrow
  obtain ⟨q, hq⟩ := applyRow_ok hrow
  rw [hq.rows, previous_one hversion]
  exact Dict.mem_keys_set.mpr (.inr ht)

theorem seen_of_rows (hs : s.seen = []) (h : rowList.foldlM pass.applyRow s = .ok s') :
    ∀ key ∈ s'.seen, ∃ row ∈ rowList, row.key = key := by
  refine foldlM_ok (motive := fun _ t => ∀ key ∈ t.seen, ∃ row ∈ rowList, row.key = key) ?_
    (by simp [hs]) h
  intro _ t row t' hmem ht hrow
  obtain ⟨q, hq⟩ := applyRow_ok hrow
  rw [hq.seen]
  simp only [List.forall_mem_cons]
  exact ⟨⟨row, hmem, rfl⟩, ht⟩

end Rows

section Snapshots

variable {store store' : Store} {c : Counters} {snapshot : Snapshot}
  {authMap historicalAliases : Dict String String} {new earlier : List Posting}
  {acknowledged : List (String × CounterKey)}

structure Accepted (acknowledged : List (String × CounterKey)) (earlier : List Posting)
    (store : Store) (c : Counters) (store' : Store) (new : List Posting)
    (c' : Counters) : Prop where
  counters : store'.counters = some c'
  instanceId : c'.instanceId = c.instanceId
  retired : c'.retiredInstances = c.retiredInstances
  books : Books acknowledged c.instanceId c'.rows (new ++ earlier)
  chained : Chained (new ++ earlier)
  credited : ∀ u, bytesOf store'.users u = bytesOf store.users u + credits new u
  own : ∀ p ∈ new, p.instanceId = c.instanceId ∧ p.migrated = migrates store
  pending : ∀ key ∈ c'.retirementPending.keys, key.id ≠ ""

theorem applyRows_ok (h : applyRows store c snapshot authMap historicalAliases = .ok (store', new))
    (hinstance : snapshot.instanceId = c.instanceId)
    (hbooks : Books acknowledged c.instanceId c.rows earlier) (hchained : Chained earlier)
    (hpending : ∀ key ∈ c.retirementPending.keys, key.id ≠ "")
    (hoffered : ∀ row ∈ snapshot.users, Offered acknowledged c.instanceId row.key) :
    ∃ c', Accepted acknowledged earlier store c store' new c' := by
  obtain ⟨s, hfold, h⟩ := bind_eq_ok h
  obtain ⟨_, hcomplete, h⟩ := bind_eq_ok h
  have hcomplete := of_require hcomplete
  cases h
  have hplain : snapshot.counterVersion = .one → ∀ key b, c.rows.get? key = some b →
      key.id = "" := by
    intro hversion key b hget
    have hkept := rows_kept_one hversion hfold (Dict.mem_keys_iff.mpr ⟨b, hget⟩)
    obtain ⟨row, hrow, rfl⟩ := seen_of_rows rfl hfold key (hcomplete key hkept)
    exact (snapshot.ids row hrow).mpr hversion
  have hstart : Going acknowledged earlier store.users
      ⟨snapshot.instanceId, snapshot.counterVersion, migrates store, authMap, historicalAliases⟩
      { rows := c.rows, pending := c.retirementPending, users := store.users } :=
    ⟨hinstance ▸ hbooks, hchained, by simp [credits], by simp, hpending, hplain⟩
  have hgoing := foldlM_ok (motive := fun _ t => Going acknowledged earlier store.users
      ⟨snapshot.instanceId, snapshot.counterVersion, migrates store, authMap, historicalAliases⟩ t)
    (fun _ t row t' hmem ht hrow =>
      ht.applyRow (snapshot.ids row hmem) (hinstance ▸ hoffered row hmem) hrow)
    hstart hfold
  exact ⟨_, rfl, rfl, rfl, hinstance ▸ hgoing.books, hgoing.chained, hgoing.credited,
    hinstance ▸ hgoing.own, hgoing.pending⟩

end Snapshots

end NodeManager.CounterPostings
