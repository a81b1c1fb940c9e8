import Patchbay.Json.Basic
import Patchbay.Proofs.Dict
import Patchbay.Proofs.Number.Range

/-! Values as they come from outside, and when two of them are the same. Two values are the same when they are equal
but for the signs of their zeros. -/

namespace Patchbay

/-! ## Signs of zeros -/

namespace Double

def negativeZero : Double := { zero with neg := true }

/-- The number itself, its zero positive. -/
def normal (x : Double) : Double := ⟨decide (x.units < 0), x.mag, x.isMagnitude⟩

theorem natAbs_units (x : Double) : x.units.natAbs = x.mag := by
  unfold units
  split <;> omega

theorem units_eq_iff {x y : Double} : x.units = y.units ↔ x.normal = y.normal := by
  have hx := x.natAbs_units
  have hy := y.natAbs_units
  rw [normal, normal, mk.injEq, decide_eq_decide]
  omega

end Double

namespace Number

def normal : Number → Number
  | .int i => .int i
  | .float x => .float x.normal

theorem same_iff {m n : Number} : m.same n = true ↔ m.normal = n.normal := by
  cases m with
  | int i => cases n <;> simp [same, normal]
  | float x =>
    cases n with
    | int j => simp [same, normal]
    | float y => simpa [same, Double.same, normal] using Double.units_eq_iff

end Number

namespace Json

mutual

/-- The value with each zero in it positive. -/
def normal : Json → Json
  | .null => .null
  | .bool b => .bool b
  | .num n => .num n.normal
  | .str s => .str s
  | .arr items => .arr (normalItems items)
  | .obj members => .obj (normalMembers members)

def normalItems : List Json → List Json
  | [] => []
  | x :: xs => normal x :: normalItems xs

def normalMembers : List (String × Json) → List (String × Json)
  | [] => []
  | (k, x) :: xs => (k, normal x) :: normalMembers xs

end

mutual

theorem same_iff_normal : ∀ u v : Json, u.same v = true ↔ u.normal = v.normal
  | .null, v => by cases v <;> simp [same, normal]
  | .bool b, v => by cases v <;> simp [same, normal]
  | .num m, v => by cases v <;> simp [same, normal, Number.same_iff]
  | .str s, v => by cases v <;> simp [same, normal]
  | .arr us, v => by
    cases v with
    | arr vs => simpa [same, normal] using sameItems_iff_normal us vs
    | _ => simp [same, normal]
  | .obj us, v => by
    cases v with
    | obj vs => simpa [same, normal] using sameMembers_iff_normal us vs
    | _ => simp [same, normal]

theorem sameItems_iff_normal : ∀ us vs : List Json, sameItems us vs = true ↔ normalItems us = normalItems vs
  | [], vs => by cases vs <;> simp [sameItems, normalItems]
  | u :: us, [] => by simp [sameItems, normalItems]
  | u :: us, v :: vs => by
    simp [sameItems, normalItems, same_iff_normal u v, sameItems_iff_normal us vs]

theorem sameMembers_iff_normal :
    ∀ us vs : List (String × Json), sameMembers us vs = true ↔ normalMembers us = normalMembers vs
  | [], vs => by cases vs <;> simp [sameMembers, normalMembers]
  | u :: us, [] => by simp [sameMembers, normalMembers]
  | (k, u) :: us, (l, v) :: vs => by
    simp [sameMembers, normalMembers, same_iff_normal u v, sameMembers_iff_normal us vs]

end

variable {u v w : Json}

theorem beq_iff_normal : (u == v) = true ↔ u.normal = v.normal := same_iff_normal u v

theorem beq_refl (v : Json) : (v == v) = true := beq_iff_normal.2 rfl

theorem beq_symm (h : (u == v) = true) : (v == u) = true := beq_iff_normal.2 (beq_iff_normal.1 h).symm

theorem beq_trans (h : (u == v) = true) (h' : (v == w) = true) : (u == w) = true :=
  beq_iff_normal.2 ((beq_iff_normal.1 h).trans (beq_iff_normal.1 h'))

/-- No two of the values are the same but for the signs of their zeros. -/
def Discrete (p : Json → Prop) : Prop := ∀ u v, p u → p v → (u == v) = true → u = v

theorem discrete_normal : Discrete fun v => v.normal = v := by
  intro u v hu hv he
  rw [← hu, ← hv, beq_iff_normal.1 he]

/-! ## Valid values -/

/-- A value that there can be outside of the model: its integers are those of 64 bits, signed or unsigned, and its
objects have their members in key order. -/
inductive Valid : Json → Prop
  | null : Valid .null
  | bool (b : Bool) : Valid (.bool b)
  | int {i : Int} (h : minInt64 ≤ i ∧ i ≤ maxNat64) : Valid (.num (.int i))
  | float (x : Double) : Valid (.num (.float x))
  | str (s : String) : Valid (.str s)
  | arr {items : List Json} (h : ∀ x ∈ items, Valid x) : Valid (.arr items)
  | obj {members : List (String × Json)} (ho : Entries.Ordered members) (h : ∀ e ∈ members, Valid e.2) :
    Valid (.obj members)

theorem Valid.mkObj {l : List (String × Json)} (h : ∀ e ∈ l, Valid e.2) : Valid (.mkObj l) :=
  .obj (Dict.ofList l).ordered fun e he => h e (Entries.mem_of_mem_ofList he)

/-- There is a double nearest to every valid number. -/
theorem Valid.exists_toDouble? {n : Number} (h : Valid (.num n)) : ∃ x, n.toDouble? = some x := by
  cases h with
  | int h =>
    simp only [minInt64, maxNat64] at h
    exact Double.exists_ofInt? (by omega)
  | float x => exact ⟨x, rfl⟩

end Json

end Patchbay
