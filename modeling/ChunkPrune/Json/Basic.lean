import ChunkPrune.Binary64
import ChunkPrune.Table

/-!
# JSON values

Whole numbers within 64 bits are kept exactly, all other numbers are doubles. An
object is its list of members in the order in which it is written; the reader gives
each object in key order and each key once.
-/

namespace ChunkPrune

inductive Json.Number where
  | integer (value : Int)
  | double (value : Binary64)
  deriving DecidableEq, Repr

inductive Json where
  | null
  | bool (value : Bool)
  | number (value : Json.Number)
  | string (value : String)
  | array (items : List Json)
  | object (members : List (String × Json))
  deriving Repr

namespace Json

instance : Inhabited Json := ⟨null⟩

mutual

def beq : Json → Json → Bool
  | null, null => true
  | bool a, bool b => a == b
  | number a, number b => a == b
  | string a, string b => a == b
  | array a, array b => beqItems a b
  | object a, object b => beqMembers a b
  | _, _ => false

def beqItems : List Json → List Json → Bool
  | [], [] => true
  | a :: as, b :: bs => beq a b && beqItems as bs
  | _, _ => false

def beqMembers : List (String × Json) → List (String × Json) → Bool
  | [], [] => true
  | (k, a) :: as, (l, b) :: bs => k == l && beq a b && beqMembers as bs
  | _, _ => false

end

mutual

theorem eq_of_beq : ∀ a b : Json, beq a b = true → a = b
  | null, b, h => by cases b <;> simp_all [beq]
  | bool a, b, h => by cases b <;> simp_all [beq]
  | number a, b, h => by cases b <;> simp_all [beq]
  | string a, b, h => by cases b <;> simp_all [beq]
  | array a, b, h => by
    cases b with
    | array b => exact congrArg array (eq_of_beqItems a b h)
    | _ => simp [beq] at h
  | object a, b, h => by
    cases b with
    | object b => exact congrArg object (eq_of_beqMembers a b h)
    | _ => simp [beq] at h

theorem eq_of_beqItems : ∀ a b : List Json, beqItems a b = true → a = b
  | [], b, h => by cases b <;> simp_all [beqItems]
  | a :: as, b, h => by
    cases b with
    | nil => simp [beqItems] at h
    | cons b bs =>
      rw [beqItems, Bool.and_eq_true] at h
      rw [eq_of_beq a b h.1, eq_of_beqItems as bs h.2]

theorem eq_of_beqMembers :
    ∀ a b : List (String × Json), beqMembers a b = true → a = b
  | [], b, h => by cases b <;> simp_all [beqMembers]
  | (k, a) :: as, b, h => by
    cases b with
    | nil => simp [beqMembers] at h
    | cons b bs =>
      obtain ⟨l, b⟩ := b
      rw [beqMembers, Bool.and_eq_true, Bool.and_eq_true] at h
      rw [eq_of_beq a b h.1.2, eq_of_beqMembers as bs h.2, beq_iff_eq.mp h.1.1]

end

mutual

theorem beq_self : ∀ a : Json, beq a a = true
  | null => rfl
  | bool _ => by simp [beq]
  | number _ => by simp [beq]
  | string _ => by simp [beq]
  | array a => beqItems_self a
  | object a => beqMembers_self a

theorem beqItems_self : ∀ a : List Json, beqItems a a = true
  | [] => rfl
  | a :: as => by rw [beqItems, beq_self a, beqItems_self as]; rfl

theorem beqMembers_self : ∀ a : List (String × Json), beqMembers a a = true
  | [] => rfl
  | (k, a) :: as => by
    rw [beqMembers, beq_self a, beqMembers_self as, beq_self_eq_true]; rfl

end

instance : DecidableEq Json := fun a b =>
  if h : beq a b = true then isTrue (eq_of_beq a b h)
  else isFalse fun heq => h (heq ▸ beq_self a)

/-- The value of a member; only an object has members. -/
def get? (json : Json) (key : String) : Option Json :=
  match json with
  | object members => Entries.get? key members
  | _ => none

def string? : Json → Option String
  | string value => some value
  | _ => none

def array? : Json → Option (List Json)
  | array items => some items
  | _ => none

/-- The whole number of a value that is one, from zero on. -/
def natural? : Json → Option Nat
  | number (.integer value) => if 0 ≤ value then some value.toNat else none
  | _ => none

/-- The value counts as true where only `false`, nothing, zero and the empty text
count as false. -/
def truthy : Json → Bool
  | null => false
  | bool value => value
  | number (.integer value) => value != 0
  | number (.double value) => !value.isZero
  | string value => value != ""
  | array _ => true
  | object _ => true

mutual

/-- The greatest number of arrays and objects that are open at one place. -/
def depth : Json → Nat
  | array items => depthItems items + 1
  | object members => depthMembers members + 1
  | _ => 0

def depthItems : List Json → Nat
  | [] => 0
  | item :: rest => max (depth item) (depthItems rest)

def depthMembers : List (String × Json) → Nat
  | [] => 0
  | (_, value) :: rest => max (depth value) (depthMembers rest)

end

end Json

end ChunkPrune
