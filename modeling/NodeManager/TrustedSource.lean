import NodeManager.Text

namespace NodeManager.TrustedSource

open Text

def maxHeaderBytes : Nat := 2048

def maxHops : Nat := 16

structure Address where
  v6 : Bool
  value : Nat
  deriving DecidableEq

def Address.unmapped (ip : Address) : Address :=
  if ip.v6 ∧ ip.value / 2 ^ 32 = 0xFFFF then ⟨false, ip.value % 2 ^ 32⟩ else ip

structure Network where
  address : Address
  prefixlen : Nat

def Network.contains (net : Network) (ip : Address) : Bool :=
  let host := 2 ^ ((if ip.v6 then 128 else 32) - net.prefixlen)
  ip.v6 = net.address.v6 && ip.value / host = net.address.value / host

structure Library where
  ipAddress : String → Option Address
  str : Address → String

section

variable (lib : Library) (trusted : List Network)

def address (value : String) : Option Address :=
  if value = "" ∨ '%' ∈ value.toList then none
  else (lib.ipAddress (strip value)).map Address.unmapped

def isTrusted (ip : Address) : Bool := trusted.any (·.contains ip)

def split (header : String) : List String := (header.toList.splitOn ',').map String.ofList

def walk : Address → List Address → Address
  | current, [] => current
  | current, hop :: hops => if isTrusted trusted current then walk hop hops else current

def resolve (peer : Option String) (headers : List String) : Option String :=
  match peer.bind (address lib) with
  | none => none
  | some current =>
    if !isTrusted trusted current then some (lib.str current)
    else
      match headers with
      | [] => some (lib.str current)
      | [header] =>
        let parts := split header
        if maxHeaderBytes < header.utf8ByteSize ∨ maxHops < parts.length then none
        else if parts.any (fun part => (address lib part).isNone) then none
        else some (lib.str (walk trusted current (parts.filterMap (address lib)).reverse))
      | _ => none

end

variable {lib : Library} {trusted : List Network} {peer : Option String} {p a : Address}

theorem split_append (attacker suffix : String) :
    split (attacker ++ "," ++ suffix) = split attacker ++ split suffix := by
  have hchars : (attacker ++ "," ++ suffix).toList = attacker.toList ++ ',' :: suffix.toList := by
    simp [String.toList_append]
  rw [split, hchars, List.splitOn, List.splitOnP_append_cons _ _ (by simp), List.map_append]
  rfl

theorem walk_untrusted (ha : isTrusted trusted a = false) (hops : List Address) :
    walk trusted a hops = a := by
  cases hops with
  | nil => rfl
  | cons hop hops => rw [walk, if_neg (by simp [ha])]

theorem walk_append (hp : isTrusted trusted p = true) (ha : isTrusted trusted a = false)
    {hops : List Address} (hhops : ∀ hop ∈ hops, isTrusted trusted hop = true)
    (rest : List Address) :
    walk trusted p (hops ++ a :: rest) = a := by
  induction hops generalizing p with
  | nil => rw [List.nil_append, walk, if_pos hp, walk_untrusted ha]
  | cons hop hops ih =>
    rw [List.cons_append, walk, if_pos hp]
    exact ih (hhops hop List.mem_cons_self)
      (fun other ho => hhops other (List.mem_cons_of_mem _ ho))

/-- The headers of an untrusted peer are not read. Behind a trusted peer, the hops from the first
untrusted one on decide, with any text before them. -/
theorem forwarded_not_spoofed (lib : Library) (trusted : List Network) (peer : Option String) :
    ((∀ p, peer.bind (address lib) = some p → isTrusted trusted p = false) →
      ∀ headers headers', resolve lib trusted peer headers = resolve lib trusted peer headers') ∧
    ∀ p, peer.bind (address lib) = some p → isTrusted trusted p = true →
      ∀ suffix first hops a, split suffix = first :: hops → address lib first = some a →
      isTrusted trusted a = false →
        (∀ hop ∈ hops, ∀ b, address lib hop = some b → isTrusted trusted b = true) →
          ∀ header, (header = suffix ∨ ∃ attacker, header = attacker ++ "," ++ suffix) →
            resolve lib trusted peer [header] = some (lib.str a) ∨
            resolve lib trusted peer [header] = none := by
  refine ⟨fun huntrusted headers headers' => ?_, ?_⟩
  · unfold resolve
    cases hp : peer.bind (address lib) with
    | none => rfl
    | some p => simp [huntrusted p hp]
  · intro p hp htrusted suffix first hops a hsuffix hfirst ha hhops header hheader
    obtain ⟨before, hsplit⟩ : ∃ before, split header = before ++ first :: hops := by
      obtain rfl | ⟨attacker, rfl⟩ := hheader
      · exact ⟨[], hsuffix⟩
      · exact ⟨split attacker, by rw [split_append, hsuffix]⟩
    have hlater : ∀ hop ∈ (hops.filterMap (address lib)).reverse, isTrusted trusted hop = true := by
      intro b hb
      obtain ⟨hop, hhop, hb⟩ := List.mem_filterMap.mp (List.mem_reverse.mp hb)
      exact hhops hop hhop b hb
    have hwalk : walk trusted p ((split header).filterMap (address lib)).reverse = a := by
      rw [hsplit, List.filterMap_append, List.filterMap_cons_some hfirst, List.reverse_append,
        List.reverse_cons, List.append_assoc]
      exact walk_append htrusted ha hlater _
    simp only [resolve, hp, htrusted, hwalk, Bool.not_true, Bool.false_eq_true, if_false]
    split
    · exact .inr rfl
    split
    · exact .inr rfl
    · exact .inl rfl

def twoHosts : Library where
  ipAddress
    | "10.0.0.1" => some ⟨false, 10 * 2 ^ 24 + 1⟩
    | "203.0.113.7" => some ⟨false, 203 * 2 ^ 24 + 113 * 2 ^ 8 + 7⟩
    | _ => none
  str ip := if ip.value = 10 * 2 ^ 24 + 1 then "10.0.0.1" else "203.0.113.7"

def tenNet : List Network := [⟨⟨false, 10 * 2 ^ 24⟩, 8⟩]

theorem forged_hop_ignored :
    resolve twoHosts tenNet (some "203.0.113.7") ["10.0.0.1"] =
    resolve twoHosts tenNet (some "203.0.113.7") [] ∧
    (resolve twoHosts tenNet (some "10.0.0.1") ["10.0.0.1,203.0.113.7"] = some "203.0.113.7" ∨
      resolve twoHosts tenNet (some "10.0.0.1") ["10.0.0.1,203.0.113.7"] = none) := by
  refine ⟨(forwarded_not_spoofed twoHosts tenNet (some "203.0.113.7")).1 ?_ _ _, ?_⟩
  · rintro p hp
    cases hp
    decide
  · exact (forwarded_not_spoofed twoHosts tenNet (some "10.0.0.1")).2 ⟨false, 10 * 2 ^ 24 + 1⟩
      (by decide) (by decide) "203.0.113.7" "203.0.113.7" [] ⟨false, 203 * 2 ^ 24 + 113 * 2 ^ 8 + 7⟩
      (by decide) (by decide) (by decide) nofun _ (.inr ⟨"10.0.0.1", rfl⟩)

end NodeManager.TrustedSource
