import NodeManager.Dictionary
import NodeManager.JsonValues

namespace NodeManager.PrefixCodes

open Dictionary JsonValues

variable {α β : Type}

/-- Texts for values, such that a value and the rest of the input are found again. -/
structure Code (α : Type) where
  write : α → List Char
  separated : ∀ {a b r r'}, write a ++ r = write b ++ r' → a = b ∧ r = r'

namespace Code

theorem write_injective (c : Code α) : Function.Injective c.write := by
  intro a b h
  have hsame : c.write a ++ [] = c.write b ++ [] := by rw [h]
  exact (c.separated hsame).1

def text (c : Code α) (a : α) : String := String.ofList (c.write a)

theorem text_injective (c : Code α) : Function.Injective c.text := by
  intro a b h
  exact c.write_injective (String.ofList_inj.mp h)

def map (c : Code β) (f : α → β) (hf : Function.Injective f) : Code α where
  write a := c.write (f a)
  separated h := ⟨hf (c.separated h).1, (c.separated h).2⟩

def prod (c : Code α) (d : Code β) : Code (α × β) where
  write p := c.write p.1 ++ d.write p.2
  separated {p q r r'} h := by
    obtain ⟨hfirst, htail⟩ := c.separated (by simpa using h)
    obtain ⟨hsecond, hrest⟩ := d.separated htail
    exact ⟨Prod.ext hfirst hsecond, hrest⟩

def unit : Code Unit where
  write _ := []
  separated h := ⟨rfl, h⟩

def char : Code Char where
  write c := [c]
  separated h := by simpa using h

def bool : Code Bool where
  write b := if b then ['t'] else ['f']
  separated {a b r r'} h := by cases a <;> cases b <;> simp_all

def option (c : Code α) : Code (Option α) where
  write
    | none => ['-']
    | some a => '+' :: c.write a
  separated {a b r r'} h := by
    cases a <;> cases b <;> simp at h
    · exact ⟨rfl, h⟩
    · exact ⟨congrArg some (c.separated h).1, (c.separated h).2⟩

def listChars (c : Code α) : List α → List Char
  | [] => ['.']
  | a :: as => ',' :: (c.write a ++ listChars c as)

theorem listChars_separated (c : Code α) (as bs : List α) {r r' : List Char}
    (h : listChars c as ++ r = listChars c bs ++ r') : as = bs ∧ r = r' := by
  induction as generalizing bs with
  | nil => cases bs <;> simp_all [listChars]
  | cons a as ih =>
    cases bs with
    | nil => simp [listChars] at h
    | cons b bs =>
      simp only [listChars, List.cons_append, List.append_assoc, List.cons.injEq, true_and] at h
      obtain ⟨rfl, htail⟩ := c.separated h
      obtain ⟨rfl, hrest⟩ := ih bs htail
      exact ⟨rfl, hrest⟩

def list (c : Code α) : Code (List α) where
  write := listChars c
  separated h := listChars_separated c _ _ h

def string : Code String := char.list.map String.toList (fun _ _ h => String.toList_inj.mp h)

def nat : Code Nat :=
  unit.list.map (fun n => List.replicate n ()) (fun m n h => by simpa using congrArg List.length h)

def int : Code Int :=
  (bool.prod nat).map (fun z => (decide (z < 0), z.natAbs)) (fun y z h => by
    simp only [Prod.mk.injEq, decide_eq_decide] at h
    omega)

def dict (c : Code α) : Code (Dict String α) :=
  (string.prod c).list.map Dict.entries (by
    rintro ⟨entries, _⟩ ⟨_, _⟩ rfl
    rfl)

mutual

def jsonChars : Json → List Char
  | .null => ['n']
  | .bool b => 'b' :: bool.write b
  | .num z => 'i' :: int.write z
  | .str s => 's' :: string.write s
  | .arr items => 'a' :: itemsChars items
  | .obj fields => 'o' :: fieldsChars fields

def itemsChars : List Json → List Char
  | [] => ['.']
  | a :: as => ',' :: (jsonChars a ++ itemsChars as)

def fieldsChars : List (String × Json) → List Char
  | [] => ['.']
  | (k, a) :: fields => ',' :: (string.write k ++ (jsonChars a ++ fieldsChars fields))

end

mutual

theorem jsonChars_separated : ∀ (a b : Json) {r r' : List Char},
    jsonChars a ++ r = jsonChars b ++ r' → a = b ∧ r = r'
  | .null, b, r, r', h => by cases b <;> simp_all [jsonChars]
  | .bool x, b, r, r', h => by
    cases b <;> simp [jsonChars] at h
    next y => simpa using bool.separated h
  | .num x, b, r, r', h => by
    cases b <;> simp [jsonChars] at h
    next y => simpa using int.separated h
  | .str x, b, r, r', h => by
    cases b <;> simp [jsonChars] at h
    next y => simpa using string.separated h
  | .arr items, b, r, r', h => by
    cases b <;> simp [jsonChars] at h
    next items' => simpa using itemsChars_separated items items' h
  | .obj fields, b, r, r', h => by
    cases b <;> simp [jsonChars] at h
    next fields' => simpa using fieldsChars_separated fields fields' h

theorem itemsChars_separated :
    ∀ (as bs : List Json) {r r' : List Char}, itemsChars as ++ r = itemsChars bs ++ r' →
    as = bs ∧ r = r'
  | [], bs, r, r', h => by cases bs <;> simp_all [itemsChars]
  | a :: as, bs, r, r', h => by
    cases bs <;> simp [itemsChars] at h
    next b bs =>
      obtain ⟨rfl, htail⟩ := jsonChars_separated a b h
      simpa using itemsChars_separated as bs htail

theorem fieldsChars_separated : ∀ (as bs : List (String × Json)) {r r' : List Char},
    fieldsChars as ++ r = fieldsChars bs ++ r' → as = bs ∧ r = r'
  | [], bs, r, r', h => by
    cases bs with
    | nil => simpa [fieldsChars] using h
    | cons field bs => simp [fieldsChars] at h
  | (k, a) :: as, bs, r, r', h => by
    cases bs with
    | nil => simp [fieldsChars] at h
    | cons field bs =>
      obtain ⟨l, b⟩ := field
      simp only [fieldsChars, List.cons_append, List.append_assoc, List.cons.injEq, true_and] at h
      obtain ⟨rfl, hvalue⟩ := string.separated h
      obtain ⟨rfl, htail⟩ := jsonChars_separated a b hvalue
      simpa using fieldsChars_separated as bs htail

end

def json : Code Json where
  write := jsonChars
  separated h := jsonChars_separated _ _ h

end Code

end NodeManager.PrefixCodes
