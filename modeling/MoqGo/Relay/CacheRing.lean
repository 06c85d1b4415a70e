import MoqGo.Lib.Absorb
import MoqGo.Lib.Ring
import MoqGo.Lib.Runs
import MoqGo.Relay.Cache

/-!
# The cache as a queue (`pkg/relay/cache/cache.go`)

Entries leave the ring in the order in which they came in. What carries this through overwrites in
place, holes that `Delete` leaves and re-`Put`s of deleted keys is one fact about slots: **counted
from the head, later slots hold later entries** (`Queued.order`). A new key goes into the head
slot and the head moves on, so its slot becomes the last; nothing else moves an entry.

A `Delete` leaves its hole where it is. The head does not look for it: it evicts what stands in
its own slot, and a live entry is lost **while the ring has room** (`evicts_below_capacity`).
-/

namespace MoqGo.Relay

open Lib Message List Option

namespace ObjectCache

/-- Slot `i` holds `o`. -/
def Slot (c : ObjectCache) (i : Nat) (o : CachedObject) : Prop := c.ring[i]? = some (some o)

/-- There is an entry at `k`. -/
def Holds (c : ObjectCache) (k : Location) : Prop := (c.index.lookup k).isSome

instance (c : ObjectCache) (k : Location) : Decidable (c.Holds k) :=
  inferInstanceAs (Decidable ((c.index.lookup k).isSome = true))

variable {c : ObjectCache} {idx : Nat} {slot : Option CachedObject}

theorem not_holds_iff {k : Location} : ¬ c.Holds k ↔ c.index.lookup k = none := by
  simp [Holds]

theorem Indexed.holds_iff (h : c.Indexed) {k : Location} :
    c.Holds k ↔ ∃ i o, c.Slot i o ∧ o.loc = k := by
  unfold Holds
  rw [isSome_iff_exists]
  exact exists_congr fun i => h.lookup k i

theorem lt_of_slot {i : Nat} {o : CachedObject} (h : c.Slot i o) : i < c.ring.length :=
  (List.getElem?_eq_some_iff.mp h).1

/-! ## What the operations do to the slots -/

theorem slot_set {c' : ObjectCache} (hidx : idx < c.ring.length)
    (hring : c'.ring = c.ring.set idx slot) {i : Nat} {o : CachedObject} :
    c'.Slot i o ↔ if i = idx then slot = some o else c.Slot i o := by
  unfold Slot
  rw [hring]
  split_ifs with hi
  · rw [hi, List.getElem?_set_self hidx, some.injEq]
  · rw [List.getElem?_set_ne (Ne.symm hi)]

theorem put_known (now : Nat) {obj : CachedObject} (hidx : c.index.lookup obj.loc = some idx) :
    (c.put now obj).head = c.head ∧ (c.put now obj).size = c.size ∧
      (c.put now obj).ring = c.ring.set idx (some { obj with receivedAt := now }) := by
  have hidx' : c.index.lookup (CachedObject.loc { obj with receivedAt := now }) = some idx := hidx
  simp only [put, insertLocked, hidx', and_self]

theorem put_new (now : Nat) {obj : CachedObject} (hnew : c.index.lookup obj.loc = none) :
    (c.put now obj).head = (c.head + 1) % c.ring.length ∧
      (c.put now obj).size = (if ((c.ring[c.head]?).join).isSome then c.size - 1 else c.size) + 1 ∧
      (c.put now obj).ring = c.ring.set c.head (some { obj with receivedAt := now }) := by
  have hnew' : c.index.lookup (CachedObject.loc { obj with receivedAt := now }) = none := hnew
  simp only [put, insertLocked, hnew']
  cases (c.ring[c.head]?).join <;> simp

theorem delete_known {loc : Location} (hidx : c.index.lookup loc = some idx) :
    (c.delete loc).head = c.head ∧ (c.delete loc).size = c.size - 1 ∧
      (c.delete loc).ring = c.ring.set idx none := by
  simp only [delete, hidx, and_self]

theorem delete_unknown {loc : Location} (hidx : c.index.lookup loc = none) : c.delete loc = c := by
  simp only [delete, hidx]

/-! ## How many slots are taken -/

/-- The number of slots that hold an entry. -/
def taken (c : ObjectCache) : Nat := c.ring.countP Option.isSome

theorem taken_le (c : ObjectCache) : c.taken ≤ c.ring.length := List.countP_le_length

theorem taken_set {c' : ObjectCache} {slot' : Option CachedObject}
    (hslot : c.ring[idx]? = some slot) (hring : c'.ring = c.ring.set idx slot') :
    c'.taken + (if slot.isSome then 1 else 0) = c.taken + (if slot'.isSome then 1 else 0) := by
  obtain ⟨hidx, hget⟩ := List.getElem?_eq_some_iff.mp hslot
  have hset := countP_set (p := Option.isSome) (a := slot') hidx
  rw [hget] at hset
  unfold taken
  rw [hring, hset]
  by_cases hsome : slot.isSome = true
  · have hpos : 0 < c.ring.countP Option.isSome :=
      countP_pos_iff.mpr ⟨slot, mem_of_getElem? hslot, hsome⟩
    rw [if_pos hsome]
    omega
  · rw [if_neg hsome]
    omega

theorem exists_empty_iff (c : ObjectCache) :
    (∃ i : Nat, c.ring[i]? = some none) ↔ c.taken < c.ring.length := by
  rw [taken, countP_lt_length_iff, ← mem_iff_getElem?]
  constructor
  · intro h
    exact ⟨none, h, rfl⟩
  · intro h
    obtain ⟨slot, hslot, hnone⟩ := h
    cases slot with
    | none => exact hslot
    | some o => cases hnone

end ObjectCache

/-! ## Runs -/

/-- What is done to a cache. -/
inductive CacheOp
  | put (now : Nat) (obj : CachedObject)
  | delete (loc : Location)
deriving DecidableEq, Repr

/-- A cache, with the number of operations on it so far, and at which of them the entry at each
    Location came in: not when it was overwritten, but when it was put as a new key. -/
structure CacheHistory where
  cache : ObjectCache
  ops : Nat := 0
  since : Location → Nat := fun _ => 0

namespace CacheHistory

/-- A new cache of `n` slots. -/
def new (n maxDuration : Nat) : CacheHistory where
  cache := .new n maxDuration

/-- One operation. -/
def step (s : CacheHistory) : CacheOp → Option CacheHistory
  | .put now obj =>
    some {
      cache := s.cache.put now obj
      ops := s.ops + 1
      since :=
        if s.cache.Holds obj.loc then s.since else Function.update s.since obj.loc s.ops }
  | .delete loc => some { s with cache := s.cache.delete loc, ops := s.ops + 1 }

/-- **The ring is a queue**, counted from the head. -/
structure Queued (n : Nat) (s : CacheHistory) : Prop where
  indexed : s.cache.Indexed
  length : s.cache.ring.length = n
  size : s.cache.size = s.cache.taken
  past : ∀ i o, s.cache.Slot i o → s.since o.loc < s.ops
  order : ∀ i j o o', s.cache.Slot i o → s.cache.Slot j o' →
    ringOffset n s.cache.head i < ringOffset n s.cache.head j →
    s.since o.loc < s.since o'.loc

variable {n now : Nat} {s s' : CacheHistory} {obj : CachedObject} {k : Location}

theorem queued_new (hn : 0 < n) (maxDuration : Nat) : Queued n (new n maxDuration) := by
  have hring : (new n maxDuration).cache.ring = List.replicate n none := by
    simp only [new, ObjectCache.new, if_neg hn.ne']
  have hslot (i : Nat) (o : CachedObject) : ¬ (new n maxDuration).cache.Slot i o := by
    intro h
    cases eq_of_mem_replicate (mem_of_getElem? h)
  refine ⟨ObjectCache.indexed_new n maxDuration, ?_, ?_, ?_, ?_⟩
  · rw [hring, length_replicate]
  · rw [ObjectCache.taken, hring, countP_replicate]
    rfl
  · intro i o h
    exact absurd h (hslot i o)
  · intro i j o o' h
    exact absurd h (hslot i o)

theorem Queued.put_known (h : Queued n s) (now : Nat) {idx : Nat}
    (hidx : s.cache.index.lookup obj.loc = some idx) :
    Queued n { s with cache := s.cache.put now obj, ops := s.ops + 1 } := by
  obtain ⟨hhead, hsize, hring⟩ := ObjectCache.put_known now hidx
  obtain ⟨old, hold, hloc⟩ := (h.indexed.lookup _ _).mp hidx
  have hsame (i : Nat) (o : CachedObject) (ho : (s.cache.put now obj).Slot i o) :
      ∃ o₀, s.cache.Slot i o₀ ∧ o₀.loc = o.loc := by
    rw [ObjectCache.slot_set (h.indexed.lt_of_lookup hidx) hring] at ho
    split_ifs at ho with hi
    · cases ho
      exact ⟨old, hi ▸ hold, hloc⟩
    · exact ⟨o, ho, rfl⟩
  refine ⟨h.indexed.put now obj, ?_, ?_, ?_, ?_⟩
  · rw [← h.length]
    simp only [hring, length_set]
  · have htaken := ObjectCache.taken_set hold hring
    simp only [isSome_some] at htaken
    simp only [hsize, h.size]
    omega
  · intro i o ho
    obtain ⟨o₀, ho₀, heq⟩ := hsame i o ho
    rw [← heq]
    exact Nat.lt_succ_of_lt (h.past i o₀ ho₀)
  · intro i j o o' ho ho' hlt
    obtain ⟨o₀, ho₀, heq⟩ := hsame i o ho
    obtain ⟨o₁, ho₁, heq'⟩ := hsame j o' ho'
    simp only [hhead] at hlt
    rw [← heq, ← heq']
    exact h.order i j o₀ o₁ ho₀ ho₁ hlt

theorem Queued.put_new (h : Queued n s) (now : Nat) (hnew : s.cache.index.lookup obj.loc = none) :
    Queued n { cache := s.cache.put now obj, ops := s.ops + 1,
               since := Function.update s.since obj.loc s.ops } := by
  obtain ⟨hhead, hsize, hring⟩ := ObjectCache.put_new now hnew
  have hlt := h.indexed.head_lt
  have hne (i : Nat) (o : CachedObject) (ho : s.cache.Slot i o) : o.loc ≠ obj.loc := by
    intro heq
    have hlook := (h.indexed.lookup obj.loc i).mpr ⟨o, ho, heq⟩
    rw [hnew] at hlook
    cases hlook
  have hloc : CachedObject.loc { obj with receivedAt := now } = obj.loc := rfl
  have hslot {i : Nat} {o : CachedObject} := ObjectCache.slot_set (i := i) (o := o) hlt hring
  refine ⟨h.indexed.put now obj, ?_, ?_, ?_, ?_⟩
  · rw [← h.length]
    simp only [hring, length_set]
  · have hslot := List.getElem?_eq_getElem hlt
    have htaken := ObjectCache.taken_set hslot hring
    simp only [hsize, h.size, hslot, join_some]
    cases hhead : s.cache.ring[s.cache.head] with
    | none => simpa [hhead] using htaken.symm
    | some prev =>
      have hpos : 0 < s.cache.taken :=
        countP_pos_iff.mpr ⟨_, mem_of_getElem? hslot, by rw [hhead]; rfl⟩
      simp only [hhead, isSome_some, if_true] at htaken ⊢
      omega
  · intro i o ho
    rw [hslot] at ho
    split_ifs at ho with hi
    · cases ho
      simp [hloc]
    · have hold := h.past i o ho
      simp only [Function.update_of_ne (hne i o ho)]
      omega
  · intro i j o o' ho ho' hoff
    rw [hslot] at ho ho'
    simp only [hhead, h.length] at hoff
    have hj : j < n := by
      have := ObjectCache.lt_of_slot (hslot.mpr ho')
      rwa [hring, length_set, h.length] at this
    by_cases hi : i = s.cache.head
    · -- nothing comes after the new entry
      have hlast := ringOffset_next_self (h.length ▸ hlt)
      have hmax := ringOffset_lt (Nat.mod_lt (s.cache.head + 1) (by omega)) hj
      rw [hi] at hoff
      omega
    · rw [if_neg hi] at ho
      simp only [Function.update_of_ne (hne i o ho)]
      by_cases hj' : j = s.cache.head
      · rw [if_pos hj'] at ho'
        cases ho'
        simpa [hloc] using h.past i o ho
      · rw [if_neg hj'] at ho'
        simp only [Function.update_of_ne (hne j o' ho')]
        have hi' := h.length ▸ ObjectCache.lt_of_slot ho
        have hni := ringOffset_next (h.length ▸ hlt) hi' hi
        have hnj := ringOffset_next (h.length ▸ hlt) hj hj'
        exact h.order i j o o' ho ho' (by omega)

theorem Queued.delete (h : Queued n s) (loc : Location) :
    Queued n { s with cache := s.cache.delete loc, ops := s.ops + 1 } := by
  cases hidx : s.cache.index.lookup loc with
  | none =>
    rw [ObjectCache.delete_unknown hidx]
    exact ⟨h.indexed, h.length, h.size, fun i o ho => Nat.lt_succ_of_lt (h.past i o ho), h.order⟩
  | some idx =>
    obtain ⟨hhead, hsize, hring⟩ := ObjectCache.delete_known hidx
    obtain ⟨old, hold, -⟩ := (h.indexed.lookup _ _).mp hidx
    have hsame (i : Nat) (o : CachedObject) (ho : (s.cache.delete loc).Slot i o) :
        s.cache.Slot i o := by
      rw [ObjectCache.slot_set (h.indexed.lt_of_lookup hidx) hring] at ho
      split_ifs at ho
      exact ho
    refine ⟨h.indexed.delete loc, ?_, ?_, ?_, ?_⟩
    · rw [← h.length]
      simp only [hring, length_set]
    · have htaken := ObjectCache.taken_set hold hring
      simp only [isSome_some, isSome_none, if_true] at htaken
      simp only [hsize, h.size]
      simp only [Bool.false_eq_true, if_false] at htaken
      omega
    · intro i o ho
      exact Nat.lt_succ_of_lt (h.past i o (hsame i o ho))
    · intro i j o o' ho ho' hlt
      simp only [hhead] at hlt
      exact h.order i j o o' (hsame i o ho) (hsame j o' ho') hlt

theorem Queued.step {op : CacheOp} (h : Queued n s) (hs : s.step op = some s') : Queued n s' := by
  cases op with
  | put now obj =>
    cases hs
    cases hidx : s.cache.index.lookup obj.loc with
    | some idx =>
      have hholds : s.cache.Holds obj.loc := by simp [ObjectCache.Holds, hidx]
      rw [if_pos hholds]
      exact h.put_known now hidx
    | none =>
      rw [if_neg (ObjectCache.not_holds_iff.mpr hidx)]
      exact h.put_new now hidx
  | delete loc =>
    cases hs
    exact h.delete loc

theorem queued_of_run {maxDuration : Nat} (hn : 0 < n) {ops : List CacheOp}
    (h : run CacheHistory.step (new n maxDuration) ops = some s) : Queued n s :=
  run_inv (fun _ _ _ hq hs => hq.step hs) (queued_new hn maxDuration) h

/-! ## First in, first out -/

theorem Queued.slot_of_evicted (h : Queued n s) (hnew : ¬ s.cache.Holds obj.loc) {i : Nat}
    {o : CachedObject} (ho : s.cache.Slot i o) :
    ¬ (s.cache.put now obj).Holds o.loc ↔ i = s.cache.head := by
  have hnone := ObjectCache.not_holds_iff.mp hnew
  obtain ⟨-, -, hring⟩ := ObjectCache.put_new now hnone
  have hput := h.indexed.put now obj
  have hslot {j : Nat} {o' : CachedObject} :=
    ObjectCache.slot_set (i := j) (o := o') h.indexed.head_lt hring
  rw [hput.holds_iff]
  constructor
  · intro hgone
    by_contra hi
    exact hgone ⟨i, o, hslot.mpr (by rwa [if_neg hi]), rfl⟩
  · rintro rfl ⟨j, o', ho', heq⟩
    rw [hslot] at ho'
    split_ifs at ho' with hj
    · cases ho'
      exact hnew (h.indexed.holds_iff.mpr ⟨_, o, ho, heq.symm⟩)
    · exact hj (h.indexed.slot_unique ho' ho heq)

theorem Queued.evicts_oldest (h : Queued n s) (hnew : ¬ s.cache.Holds obj.loc)
    (hk : s.cache.Holds k) (hgone : ¬ (s.cache.put now obj).Holds k) {k' : Location}
    (hk' : s.cache.Holds k') (hne : k' ≠ k) : s.since k < s.since k' := by
  obtain ⟨i, o, ho, rfl⟩ := h.indexed.holds_iff.mp hk
  obtain ⟨j, o', ho', rfl⟩ := h.indexed.holds_iff.mp hk'
  have hi := (h.slot_of_evicted hnew ho).mp hgone
  have hj : j ≠ s.cache.head := by
    intro hj
    rw [hj, ← hi] at ho'
    rw [ObjectCache.Slot, ho] at ho'
    cases ho'
    exact hne rfl
  refine h.order i j o o' ho ho' ?_
  rw [hi, ringOffset_self]
  exact ringOffset_pos (h.length ▸ h.indexed.head_lt) hj

/-- A `Put` of a key that is not in the cache. -/
def newKey (c : ObjectCache) : CacheOp → Bool
  | .put _ obj => !decide (c.Holds obj.loc)
  | .delete _ => false

/-- How many `Put`s of new keys there are among `ops`. -/
def newKeys : CacheHistory → List CacheOp → Nat
  | _, [] => 0
  | s, op :: ops =>
    (if newKey s.cache op then 1 else 0) +
      match s.step op with
      | none => 0
      | some s' => newKeys s' ops

/-- An entry at `k`, with room before it for `room` more new keys. -/
def Safe (n room : Nat) (k : Location) (s : CacheHistory) : Prop :=
  ∃ i o, s.cache.Slot i o ∧ o.loc = k ∧ room ≤ ringOffset n s.cache.head i

/-- A step that does not delete `k` uses up at most the room of its own new key. -/
theorem Safe.step {room : Nat} {op : CacheOp} (hq : Queued n s)
    (h : Safe n ((if newKey s.cache op then 1 else 0) + room) k s) (hdel : op ≠ .delete k)
    (hs : s.step op = some s') : Safe n room k s' := by
  obtain ⟨i, o, ho, hloc, hroom⟩ := h
  have hlt := hq.indexed.head_lt
  cases op with
  | put now obj =>
    cases hs
    cases hidx : s.cache.index.lookup obj.loc with
    | some idx =>
      obtain ⟨hhead, -, hring⟩ := ObjectCache.put_known now hidx
      have hslot {j : Nat} {o' : CachedObject} :=
        ObjectCache.slot_set (i := j) (o := o') (hq.indexed.lt_of_lookup hidx) hring
      have hoff : room ≤ ringOffset n (s.cache.put now obj).head i := by
        rw [hhead]
        omega
      by_cases hi : i = idx
      · have heq : obj.loc = o.loc :=
          hq.indexed.loc_of_lookup hidx ((hq.indexed.lookup _ _).mpr ⟨o, hi ▸ ho, rfl⟩)
        refine ⟨i, { obj with receivedAt := now }, hslot.mpr ?_, heq.trans hloc, hoff⟩
        rw [if_pos hi]
      · exact ⟨i, o, hslot.mpr (by rwa [if_neg hi]), hloc, hoff⟩
    | none =>
      obtain ⟨hhead, -, hring⟩ := ObjectCache.put_new now hidx
      have hslot {j : Nat} {o' : CachedObject} :=
        ObjectCache.slot_set (i := j) (o := o') hlt hring
      have hnew : newKey s.cache (.put now obj) = true := by
        simp [newKey, ObjectCache.Holds, hidx]
      rw [if_pos hnew] at hroom
      have hi : i ≠ s.cache.head := by
        rintro rfl
        rw [ringOffset_self] at hroom
        omega
      have hnext := ringOffset_next (hq.length ▸ hlt)
        (hq.length ▸ ObjectCache.lt_of_slot ho) hi
      refine ⟨i, o, hslot.mpr (by rwa [if_neg hi]), hloc, ?_⟩
      simp only [hhead, hq.length]
      omega
  | delete loc =>
    cases hs
    have hroom : room ≤ ringOffset n s.cache.head i := by
      simpa [newKey] using hroom
    cases hidx : s.cache.index.lookup loc with
    | none =>
      simp only [ObjectCache.delete_unknown hidx]
      exact ⟨i, o, ho, hloc, hroom⟩
    | some idx =>
      obtain ⟨hhead, -, hring⟩ := ObjectCache.delete_known hidx
      have hi : i ≠ idx := by
        rintro rfl
        have hk := (hq.indexed.lookup _ _).mpr ⟨o, ho, rfl⟩
        exact hdel (congrArg CacheOp.delete ((hq.indexed.loc_of_lookup hidx hk).trans hloc))
      refine ⟨i, o, ?_, hloc, hhead ▸ hroom⟩
      rw [ObjectCache.slot_set (hq.indexed.lt_of_lookup hidx) hring, if_neg hi]
      exact ho

/-- By induction along the run: every new key uses up one slot of the room. -/
theorem Safe.run {ops : List CacheOp} :
    ∀ {s s' : CacheHistory}, Queued n s → Safe n (newKeys s ops) k s →
      (∀ op ∈ ops, op ≠ .delete k) → run CacheHistory.step s ops = some s' →
      s'.cache.Holds k := by
  induction ops with
  | nil =>
    intro s s' hq hsafe _ hrun
    cases hrun
    obtain ⟨i, o, ho, hloc, -⟩ := hsafe
    exact hq.indexed.holds_iff.mpr ⟨i, o, ho, hloc⟩
  | cons op ops ih =>
    intro s s' hq hsafe hdel hrun
    obtain ⟨t, ht, hrest⟩ := run_cons.mp hrun
    simp only [newKeys, ht] at hsafe
    exact ih (hq.step ht) (hsafe.step hq (hdel op mem_cons_self) ht)
      (fun op' hop => hdel op' (mem_cons_of_mem _ hop)) hrest

theorem Queued.safe_put (h : Queued n s) (hnew : ¬ s.cache.Holds obj.loc)
    (hs : s.step (.put now obj) = some s') : Safe n (n - 1) obj.loc s' := by
  obtain ⟨hhead, -, hring⟩ :=
    ObjectCache.put_new now (ObjectCache.not_holds_iff.mp hnew)
  have hlast := ringOffset_next_self (h.length ▸ h.indexed.head_lt)
  cases hs
  refine ⟨s.cache.head, { obj with receivedAt := now }, ?_, rfl, ?_⟩
  · rw [ObjectCache.slot_set h.indexed.head_lt hring, if_pos rfl]
  · simp only [hhead, h.length]
    omega

end CacheHistory

/-! ## Ranges -/

namespace ObjectCache

/-- The order of `GetRange`: Groups in `order`, Object IDs ascending within one. -/
def Precedes (order : GroupOrder) (a b : CachedObject) : Prop :=
  (match order with
    | .ascending => a.groupID < b.groupID
    | .descending => b.groupID < a.groupID) ∨
  a.groupID = b.groupID ∧ a.objectID < b.objectID

/-- Where `sortObjects` puts an Object. -/
def sortKey (order : GroupOrder) (o : CachedObject) : Nat :=
  match order with
  | .ascending => o.loc.rank
  | .descending =>
    (18446744073709551615 - o.groupID.toNat) * 18446744073709551616 + o.objectID.toNat

variable {order : GroupOrder} {a b : CachedObject}

theorem sortsBefore_iff : sortsBefore order a b = true ↔ sortKey order a ≤ sortKey order b := by
  have hag := a.groupID.toNat_lt
  have hbg := b.groupID.toNat_lt
  have hao := a.objectID.toNat_lt
  have hbo := b.objectID.toNat_lt
  cases order <;>
    simp only [sortsBefore, sortKey, CachedObject.loc, Location.rank, bne_iff_ne, ne_eq,
      ← UInt64.toNat_inj, UInt64.le_iff_toNat_le] <;>
    split_ifs <;> simp only [decide_eq_true_eq] <;> omega

theorem precedes_iff : Precedes order a b ↔ sortKey order a < sortKey order b := by
  have hag := a.groupID.toNat_lt
  have hbg := b.groupID.toNat_lt
  have hao := a.objectID.toNat_lt
  have hbo := b.objectID.toNat_lt
  cases order <;>
    simp only [Precedes, sortKey, CachedObject.loc, Location.rank, ← UInt64.toNat_inj,
      UInt64.lt_iff_toNat_lt] <;>
    omega

theorem loc_of_sortKey (h : sortKey order a = sortKey order b) : a.loc = b.loc := by
  have hab := mt precedes_iff.mp h.not_lt
  have hba := mt precedes_iff.mp h.symm.not_lt
  cases order <;>
    simp only [Precedes, UInt64.lt_iff_toNat_lt, ← UInt64.toNat_inj] at hab hba <;>
    simp only [CachedObject.loc, Location.mk.injEq, ← UInt64.toNat_inj] <;>
    omega

theorem mem_getRange {c : ObjectCache} {now : Nat} {start stop : Location} {o : CachedObject} :
    o ∈ c.getRange now start stop order ↔
      some o ∈ c.ring ∧ start.rank ≤ o.loc.rank ∧ o.loc.rank ≤ stop.rank ∧
        c.notExpired now o = true := by
  unfold getRange
  split_ifs with hempty
  · have hlt := Location.less_iff.mp hempty
    simp only [not_mem_nil, false_iff]
    omega
  · rw [sortObjects, (perm_insertionSort _ _).mem_iff, mem_filter]
    simp only [mem_filterMap, id, exists_eq_right, Bool.and_eq_true, Bool.not_eq_true',
      Location.not_less_iff, and_assoc]

theorem Indexed.getRange_pairwise {c : ObjectCache} (h : c.Indexed) (now : Nat)
    (start stop : Location) (order : GroupOrder) :
    (c.getRange now start stop order).Pairwise (Precedes order) := by
  have hsorted : (c.getRange now start stop order).Pairwise fun a b =>
      sortKey order a ≤ sortKey order b := by
    unfold ObjectCache.getRange
    split_ifs
    · exact .nil
    · exact pairwise_sort (sortKey order) (fun _ _ => sortsBefore_iff) _
  have hnodup := pairwise_map.mp (h.getRange_nodup now start stop order)
  refine (hsorted.and hnodup).imp fun {a b} hab => precedes_iff.mpr ?_
  exact lt_of_le_of_ne hab.1 fun heq => hab.2 (loc_of_sortKey heq)

end ObjectCache

/-- **The cache ring.** After every sequence of `Put`s and `Delete`s on a cache of `n` slots: the
    index is exact, the size is the number of taken slots, no key is in two slots; a `Put` that
    evicts removes the entry that came in first; a new key stays for `n - 1` further new keys
    unless it is deleted; and a range that holds nothing expired is returned whole and in order. -/
theorem cache_ring {n : Nat} (hn : 1 ≤ n) (maxDuration : Nat) {ops : List CacheOp}
    {s : CacheHistory} (hrun : run CacheHistory.step (.new n maxDuration) ops = some s) :
    (∀ k i, s.cache.index.lookup k = some i ↔ ∃ o, s.cache.Slot i o ∧ o.loc = k) ∧
    (s.cache.size = s.cache.taken ∧ s.cache.size ≤ n) ∧
    (∀ i j o o', s.cache.Slot i o → s.cache.Slot j o' → o.loc = o'.loc → i = j) ∧
    (∀ now obj k, ¬ s.cache.Holds obj.loc → s.cache.Holds k →
      ¬ (s.cache.put now obj).Holds k →
      ∀ k', s.cache.Holds k' → k' ≠ k → s.since k < s.since k') ∧
    (∀ now obj s' later t, ¬ s.cache.Holds obj.loc → s.step (.put now obj) = some s' →
      run CacheHistory.step s' later = some t → CacheHistory.newKeys s' later ≤ n - 1 →
      (∀ op ∈ later, op ≠ .delete obj.loc) → t.cache.Holds obj.loc) ∧
    ∀ now start stop order,
      (∀ o, some o ∈ s.cache.ring → s.cache.notExpired now o = true) →
      (∀ o, o ∈ s.cache.getRange now start stop order ↔
        some o ∈ s.cache.ring ∧ start.rank ≤ o.loc.rank ∧ o.loc.rank ≤ stop.rank) ∧
      (s.cache.getRange now start stop order).Pairwise (ObjectCache.Precedes order) := by
  have hq := CacheHistory.queued_of_run hn hrun
  refine ⟨hq.indexed.lookup, ⟨hq.size, ?_⟩, ?_, ?_, ?_, ?_⟩
  · rw [hq.size, ← hq.length]
    exact s.cache.taken_le
  · intro i j o o' ho ho' heq
    exact hq.indexed.slot_unique ho ho' heq
  · intro now obj k hnew hk hgone k' hk' hne
    exact hq.evicts_oldest hnew hk hgone hk' hne
  · intro now obj s' later t hnew hs hlater hroom hdel
    obtain ⟨i, o, ho, hloc, hoff⟩ := hq.safe_put hnew hs
    exact CacheHistory.Safe.run (hq.step hs) ⟨i, o, ho, hloc, hroom.trans hoff⟩ hdel hlater
  · intro now start stop order hfresh
    refine ⟨?_, hq.indexed.getRange_pairwise now start stop order⟩
    intro o
    rw [ObjectCache.mem_getRange]
    constructor
    · rintro ⟨hmem, hlo, hhi, -⟩
      exact ⟨hmem, hlo, hhi⟩
    · rintro ⟨hmem, hlo, hhi⟩
      exact ⟨hmem, hlo, hhi, hfresh o hmem⟩

/-- A key that was deleted and put again is younger than one that stayed. -/
theorem cache_ring_after_delete :
    ∃ s, run CacheHistory.step (.new 2 0)
        [.put 0 {}, .put 1 { objectID := 1 }, .delete ⟨0, 0⟩, .put 3 {}] = some s ∧
      s.cache.Holds ⟨0, 1⟩ ∧ ¬ (s.cache.put 4 { objectID := 2 }).Holds ⟨0, 1⟩ ∧
      s.since ⟨0, 1⟩ < s.since ⟨0, 0⟩ := by
  have hrun : run CacheHistory.step (.new 2 0)
      [.put 0 {}, .put 1 { objectID := 1 }, .delete ⟨0, 0⟩, .put 3 {}] = some _ := rfl
  refine ⟨_, hrun, by decide +kernel, by decide +kernel, ?_⟩
  exact (cache_ring (n := 2) (by decide) 0 hrun).2.2.2.1 4 { objectID := 2 } ⟨0, 1⟩
    (by decide +kernel) (by decide +kernel) (by decide +kernel) ⟨0, 0⟩ (by decide +kernel)
    (by decide)

/-! ## Room that is not used -/

/-- If the ring has a hole, the head is at one. -/
def ObjectCache.HoleAtHead (c : ObjectCache) : Prop :=
  (∃ i : Nat, c.ring[i]? = some none) → c.ring[c.head]? = some none

/-- **When the cache evicts only if it is full**: exactly if the head finds the hole there is. -/
theorem evicts_only_when_full_iff {n : Nat} (hn : 1 ≤ n) (maxDuration : Nat) {ops : List CacheOp}
    {s : CacheHistory} (hrun : run CacheHistory.step (.new n maxDuration) ops = some s)
    {now : Nat} {obj : CachedObject} (hnew : ¬ s.cache.Holds obj.loc) :
    (∀ k, s.cache.Holds k → ¬ (s.cache.put now obj).Holds k → s.cache.size = n) ↔
      s.cache.HoleAtHead := by
  have hq := CacheHistory.queued_of_run hn hrun
  have hfull : ¬ (∃ i : Nat, s.cache.ring[i]? = some none) ↔ s.cache.size = n := by
    have hle := s.cache.taken_le
    rw [s.cache.exists_empty_iff, hq.size, ← hq.length]
    omega
  constructor
  · intro h hhole
    have hlt := hq.indexed.head_lt
    have hhead := List.getElem?_eq_getElem hlt
    cases hslot : s.cache.ring[s.cache.head] with
    | none => rw [hhead, hslot]
    | some o =>
      -- the head evicts `o`, although there is a hole
      have ho : s.cache.Slot s.cache.head o := hhead.trans (congrArg some hslot)
      exact absurd hhole (hfull.mpr (h o.loc (hq.indexed.holds_iff.mpr ⟨_, o, ho, rfl⟩)
        ((hq.slot_of_evicted hnew ho).mpr rfl)))
  · intro h k hk hgone
    obtain ⟨i, o, ho, rfl⟩ := hq.indexed.holds_iff.mp hk
    have hi := (hq.slot_of_evicted hnew ho).mp hgone
    refine hfull.mp fun hhole => ?_
    have hnone := h hhole
    rw [← hi, show s.cache.ring[i]? = some (some o) from ho] at hnone
    cases hnone

/-- The hole of a deleted entry is at the head when the entry was the oldest. -/
theorem evicts_only_when_full_oldest :
    ∃ s, run CacheHistory.step (.new 2 0)
        [.put 0 {}, .put 1 { objectID := 1 }, .delete ⟨0, 0⟩] = some s ∧
      s.cache.HoleAtHead ∧
      ∀ k, s.cache.Holds k → ¬ (s.cache.put 3 { objectID := 2 }).Holds k → s.cache.size = 2 := by
  have hhole (c : ObjectCache) (h : c.ring[c.head]? = some none) : c.HoleAtHead := fun _ => h
  have hrun : run CacheHistory.step (.new 2 0)
      [.put 0 {}, .put 1 { objectID := 1 }, .delete ⟨0, 0⟩] = some _ := rfl
  refine ⟨_, hrun, hhole _ rfl, ?_⟩
  exact (evicts_only_when_full_iff (n := 2) (by decide) 0 hrun (by decide +kernel)).mpr
    (hhole _ rfl)

/-- The newer of two entries is deleted: the next new key evicts the older, and the cache holds
    one entry where it has room for two. -/
theorem evicts_below_capacity :
    ∃ s, run CacheHistory.step (.new 2 0)
        [.put 0 {}, .put 1 { objectID := 1 }, .delete ⟨0, 1⟩] = some s ∧
      s.cache.size = 1 ∧ ¬ s.cache.Holds ⟨0, 2⟩ ∧ s.cache.Holds ⟨0, 0⟩ ∧
      ¬ (s.cache.put 3 { objectID := 2 }).Holds ⟨0, 0⟩ :=
  ⟨_, rfl, rfl, by decide +kernel, by decide +kernel, by decide +kernel⟩

end MoqGo.Relay
