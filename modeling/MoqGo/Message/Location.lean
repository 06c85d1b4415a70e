import Mathlib.Tactic

/-!
# Locations (`pkg/moqt/message/location.go`)

A Location is a (Group, Object) pair of 64-bit IDs, ordered lexicographically. Every ID of
the development is a `UInt64`, so that the wrap-around of the source's `id+1`, `id-1` and
`id-n` is the model's too.

Proofs about Locations go through `rank`: the order embedding into the naturals that puts
Object `o` of Group `g` at `g·2⁶⁴ + o`. Under it "the Location right after" is `+ 1` and a
range of Locations is an interval of naturals, so what is left is linear arithmetic.
-/

namespace MoqGo

/-- `math.MaxUint64`. -/
def maxUint64 : UInt64 := 0xFFFFFFFFFFFFFFFF

@[simp] theorem maxUint64_toNat : maxUint64.toNat = 18446744073709551615 := rfl

theorem le_maxUint64 (x : UInt64) : x.toNat ≤ maxUint64.toNat :=
  Nat.le_of_lt_succ x.toNat_lt

theorem toNat_add_one {x : UInt64} (h : x < maxUint64) : (x + 1).toNat = x.toNat + 1 := by
  have hlt := UInt64.lt_iff_toNat_lt.mp h
  rw [UInt64.toNat_add, Nat.mod_eq_of_lt]
  · rfl
  · exact Nat.lt_of_lt_of_le (Nat.add_lt_add_right hlt 1) (by decide)

@[grind =] theorem uint64_max_def (a b : UInt64) : max a b = if a ≤ b then b else a := rfl

@[grind =] theorem uint64_min_def (a b : UInt64) : min a b = if a ≤ b then a else b := rfl

namespace Message

/-- `message.Location` (§8.2). -/
@[ext] structure Location where
  group : UInt64 := 0
  object : UInt64 := 0
deriving DecidableEq, Repr, Inhabited

namespace Location

/-- `Location.Compare`: the (Group, Object) lexicographic order, as `cmp.Compare` reports
    it. -/
def compare (l other : Location) : Ordering :=
  (compareOfLessAndEq l.group other.group).then (compareOfLessAndEq l.object other.object)

/-- `Location.Less`. -/
def less (l other : Location) : Bool := l.compare other == .lt

/-- The position of `l` in Location order. -/
def rank (l : Location) : Nat := l.group.toNat * 18446744073709551616 + l.object.toNat

theorem rank_lt (l : Location) : l.rank < 340282366920938463463374607431768211456 := by
  have hg := l.group.toNat_lt
  have ho := l.object.toNat_lt
  unfold rank
  omega

variable {l m : Location}

theorem rank_inj : l.rank = m.rank ↔ l = m := by
  constructor
  · intro h
    have hl := l.object.toNat_lt
    have hm := m.object.toNat_lt
    unfold rank at h
    cases l with
    | mk g o =>
      cases m with
      | mk g' o' =>
        simp only [mk.injEq, ← UInt64.toNat_inj]
        simp only at h hl hm
        omega
  · exact fun h => h ▸ rfl

theorem compare_eq_lt : l.compare m = .lt ↔ l.rank < m.rank := by
  have hl := l.object.toNat_lt
  have hm := m.object.toNat_lt
  simp only [compare, compareOfLessAndEq, rank, UInt64.lt_iff_toNat_lt, ← UInt64.toNat_inj]
  split_ifs <;> simp [Ordering.then] <;> omega

theorem compare_ne_gt : l.compare m ≠ .gt ↔ l.rank ≤ m.rank := by
  have hl := l.object.toNat_lt
  have hm := m.object.toNat_lt
  simp only [compare, compareOfLessAndEq, rank, UInt64.lt_iff_toNat_lt, ← UInt64.toNat_inj]
  split_ifs <;> simp [Ordering.then] <;> omega

theorem less_iff : l.less m = true ↔ l.rank < m.rank := by
  simp [less, compare_eq_lt]

theorem less_lex :
    l.less m = true ↔ l.group < m.group ∨ l.group = m.group ∧ l.object < m.object := by
  have hl := l.object.toNat_lt
  have hm := m.object.toNat_lt
  simp only [less_iff, rank, UInt64.lt_iff_toNat_lt, ← UInt64.toNat_inj]
  omega

theorem not_less_iff : l.less m = false ↔ m.rank ≤ l.rank := by
  rw [← Bool.not_eq_true, less_iff, Nat.not_lt]

end Location
end Message
end MoqGo
