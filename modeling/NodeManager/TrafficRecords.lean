import Mathlib.Algebra.Order.Monoid.Prod
import Mathlib.Algebra.Order.Sub.Prod
import NodeManager.Dictionary

namespace NodeManager.TrafficRecords

open Dictionary

inductive Field (α : Type)
  | missing
  | null
  | value (a : α)
  deriving DecidableEq, Repr

def Field.get {α : Type} : Field α → Option α
  | .value a => some a
  | _ => none

def Field.ofOption {α : Type} : Option α → Field α
  | some a => .value a
  | none => .null

@[simp] theorem Field.get_ofOption {α : Type} (a : Option α) : (Field.ofOption a).get = a := by
  cases a <;> rfl

/-- The reset evidence of a node. Its token is a digest, and stands for the epoch itself. -/
structure Epoch where
  cycleStart : Field Int
  manualResetAt : Field Int
  renewalResetKey : Field String
  version : Field Int
  deriving DecidableEq, Repr

structure Origin where
  upload : Nat
  download : Nat
  epoch : Epoch
  deriving DecidableEq

structure Evidence where
  sourceUserId : String
  identityDigest : String
  limitBytes : Nat
  nativeTotalBytes : Nat
  sourceEpoch : Epoch
  targetEpoch : Epoch
  observedAt : String
  deriving DecidableEq

structure User where
  upload : Nat := 0
  download : Nat := 0
  lastTrafficCycleStart : Option Int := none
  lastManualTrafficResetAt : Option Int := none
  lastRenewalResetKey : Option String := none
  sharedQuotaResetVersion : Nat := 0
  sharedQuotaEvidence : Dict String Evidence := Dict.empty
  replicatedTrafficOrigins : Dict String Origin := Dict.empty
  sharedQuotaRetiredSources : Dict String Epoch := Dict.empty
  nativeAccountingVersion : Option Nat := none
  replicationCycle : Option String := none
  deriving DecidableEq

abbrev Bytes := Nat × Nat

def User.bytes (user : User) : Bytes := (user.upload, user.download)

def User.withBytes (user : User) (bytes : Bytes) : User :=
  { user with upload := bytes.1, download := bytes.2 }

@[simp] theorem User.bytes_withBytes (user : User) (bytes : Bytes) :
    (user.withBytes bytes).bytes = bytes := rfl

def bytesOf (users : Dict String User) (userId : String) : Bytes :=
  ((users.get? userId).getD {}).bytes

def maxBytes : Nat := 2 ^ 63 - 1

theorem bytesOf_set (users : Dict String User) (userId : String) (user : User) (other : String) :
    bytesOf (users.set userId user) other = if other = userId then user.bytes
    else bytesOf users other := by
  unfold bytesOf
  rw [Dict.get?_set]
  split <;> rfl

end NodeManager.TrafficRecords
