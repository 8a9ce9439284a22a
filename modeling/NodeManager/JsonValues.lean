import Mathlib.Data.List.Basic

namespace NodeManager.JsonValues

/-- A decoded JSON value. The fields of an object are sorted by key, each key once, so that equality
is that of the maps. -/
inductive Json
  | null
  | bool (value : Bool)
  | num (value : Int)
  | str (value : String)
  | arr (items : List Json)
  | obj (fields : List (String × Json))
  deriving Repr

abbrev Object := List (String × Json)

namespace Json

mutual

def beq : Json → Json → Bool
  | .null, .null => true
  | .bool a, .bool b => a == b
  | .num a, .num b => a == b
  | .str a, .str b => a == b
  | .arr as, .arr bs => beqItems as bs
  | .obj as, .obj bs => beqFields as bs
  | _, _ => false

def beqItems : List Json → List Json → Bool
  | [], [] => true
  | a :: as, b :: bs => beq a b && beqItems as bs
  | _, _ => false

def beqFields : List (String × Json) → List (String × Json) → Bool
  | [], [] => true
  | (k, a) :: as, (l, b) :: bs => k == l && beq a b && beqFields as bs
  | _, _ => false

end

mutual

theorem beq_iff : ∀ a b, beq a b = true ↔ a = b
  | .null, b => by cases b <;> simp [beq]
  | .bool _, b => by cases b <;> simp [beq]
  | .num _, b => by cases b <;> simp [beq]
  | .str _, b => by cases b <;> simp [beq]
  | .arr as, b => by cases b <;> simp [beq, beqItems_iff as]
  | .obj as, b => by cases b <;> simp [beq, beqFields_iff as]

theorem beqItems_iff : ∀ as bs, beqItems as bs = true ↔ as = bs
  | [], bs => by cases bs <;> simp [beqItems]
  | a :: as, bs => by cases bs <;> simp [beqItems, beq_iff a, beqItems_iff as]

theorem beqFields_iff : ∀ as bs, beqFields as bs = true ↔ as = bs
  | [], bs => by cases bs <;> simp [beqFields]
  | (k, a) :: as, bs => by
    cases bs with
    | nil => simp [beqFields]
    | cons field bs =>
      obtain ⟨l, b⟩ := field
      simp [beqFields, beq_iff a, beqFields_iff as, and_assoc]

end

instance : DecidableEq Json := fun a b => decidable_of_iff _ (beq_iff a b)

def object? : Json → Option Object
  | .obj fields => some fields
  | _ => none

def str? : Json → Option String
  | .str value => some value
  | _ => none

end Json

def field (object : Object) (key : String) : Option Json := object.lookup key

def text (object : Object) (key : String) : Option String := (field object key).bind Json.str?

def rows (object : Object) (key : String) : List Json :=
  match field object key with
  | some (.arr items) => items
  | _ => []

def nested (object : Object) (key : String) : Object :=
  ((field object key).bind Json.object?).getD []

def without (object : Object) (keys : List String) : Object :=
  object.filter (fun entry => entry.1 ∉ keys)

variable {object : Object} {keys : List String}

theorem field_without {key : String} (h : key ∉ keys) :
    field (without object keys) key = field object key := by
  unfold field without
  induction object with
  | nil => rfl
  | cons entry object ih =>
    obtain ⟨k, value⟩ := entry
    by_cases hk : k ∈ keys
    · have hne : (key == k) = false := beq_false_of_ne (fun heq => h (heq ▸ hk))
      simpa [hk, List.lookup_cons, hne] using ih
    by_cases hkey : key = k
    · simp [hkey, hk]
    · have hne : (key == k) = false := beq_false_of_ne hkey
      simpa [hk, List.lookup_cons, hne] using ih

theorem text_without {key : String} (h : key ∉ keys) :
    text (without object keys) key = text object key := by
  rw [text, text, field_without h]

theorem without_without (object : Object) {keys' : List String} (h : keys ⊆ keys') :
    without (without object keys) keys' = without object keys' := by
  unfold without
  rw [List.filter_filter]
  refine List.filter_congr (fun entry _ => ?_)
  have hentry := @h entry.1
  by_cases hmem : entry.1 ∈ keys' <;> simp_all

end NodeManager.JsonValues
