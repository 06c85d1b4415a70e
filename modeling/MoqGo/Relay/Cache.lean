import Mathlib.Data.List.AList
import MoqGo.Message.Location

/-!
# The Object Cache (`pkg/relay/cache`)

A fixed-capacity ring of Objects with an index from (Group, Object) to ring slot. The ledger
removes from it the Objects that made a track malformed, the fan-out writes every forwarded
Object into it, and a FETCH reads ranges of it.

Times are naturals, counted from an arbitrary origin, and the functions that read the clock
take the current time as `now`. A duration of 0 is `time.Duration(0)`.
-/

namespace MoqGo

open AList

abbrev GoMap (α β : Type) [DecidableEq α] := AList fun _ : α => β

namespace Message

/-- `message.GroupOrder` (§9.20.8). The session layer refuses any other value. -/
inductive GroupOrder
  | ascending
  | descending
deriving DecidableEq, Repr, Inhabited

/-- The Object Status values (§11.1.1). -/
def objectStatusNormal : UInt64 := 0x0
def objectStatusEndOfGroup : UInt64 := 0x3
def objectStatusEndOfTrack : UInt64 := 0x4

end Message

namespace Relay

open Message

/-- `cache.ForwardingPreference`: how the Object arrived. -/
inductive ForwardingPreference
  | subgroup
  | datagram
deriving DecidableEq, Repr, Inhabited

/-- `cache.CachedObject`. -/
structure CachedObject where
  groupID : UInt64 := 0
  objectID : UInt64 := 0
  subgroupID : UInt64 := 0
  publisherPriority : UInt8 := 0
  forwardingPref : ForwardingPreference := .subgroup
  status : UInt64 := 0
  properties : List UInt8 := []
  payload : List UInt8 := []
  receivedAt : Nat := 0
  maxCacheDuration : Nat := 0
  hasMaxCacheDuration : Bool := false
  stitched : Bool := false
  endOfUnknownRange : Bool := false
  endOfTimedOutRange : Bool := false
deriving DecidableEq, Repr, Inhabited

namespace CachedObject

/-- The Location an element stands at. -/
def loc (o : CachedObject) : Location := ⟨o.groupID, o.objectID⟩

/-- `CachedObject.IsRangeMarker`. -/
def isRangeMarker (o : CachedObject) : Bool := o.endOfUnknownRange || o.endOfTimedOutRange

/-- `CachedObject.IsStatusMarker`: no payload, and a status other than Normal. -/
def isStatusMarker (o : CachedObject) : Bool := o.payload.isEmpty && o.status != 0

end CachedObject

/-- `cache.ObjectCache`. -/
structure ObjectCache where
  ring : List (Option CachedObject)
  head : Nat := 0
  size : Nat := 0
  index : GoMap Location Nat := ∅
  /-- The relay's own read-side TTL; 0 disables it. -/
  maxAge : Nat := 0

namespace ObjectCache

/-- `defaultUnboundedCapacity`, the ring size of a cache made with no maximum. -/
def defaultUnboundedCapacity : Nat := 65536

/-- `NewObjectCache`. -/
def new (maxSize maxDuration : Nat) : ObjectCache where
  ring := List.replicate (if maxSize = 0 then defaultUnboundedCapacity else maxSize) none
  maxAge := maxDuration

/-- `insertLocked`: overwrite in place on a known key, else take the head slot, evicting what
    was there. -/
def insertLocked (c : ObjectCache) (src : CachedObject) : ObjectCache :=
  match c.index.lookup src.loc with
  | some idx => { c with ring := c.ring.set idx (some src) }
  | none =>
    -- the evicted Object leaves the index before the new one enters it
    let (index, size) := match (c.ring[c.head]?).join with
      | some prev => (c.index.erase prev.loc, c.size - 1)
      | none => (c.index, c.size)
    { c with
      ring := c.ring.set c.head (some src)
      index := index.insert src.loc c.head
      head := (c.head + 1) % c.ring.length
      size := size + 1 }

/-- `Put`: stamps the arrival time and stores. -/
def put (c : ObjectCache) (now : Nat) (obj : CachedObject) : ObjectCache :=
  c.insertLocked { obj with receivedAt := now }

/-- `notExpiredLocked`: within the Object's own MAX_CACHE_DURATION, if it has one, and within
    the relay's TTL. -/
def notExpired (c : ObjectCache) (now : Nat) (obj : CachedObject) : Bool :=
  let age := now - obj.receivedAt
  if obj.hasMaxCacheDuration && (obj.maxCacheDuration == 0 || decide (obj.maxCacheDuration < age))
  then false
  else c.maxAge == 0 || decide (age ≤ c.maxAge)

/-- `Get`. -/
def get (c : ObjectCache) (now : Nat) (loc : Location) : Option CachedObject :=
  match c.index.lookup loc with
  | none => none
  | some idx => (c.ring[idx]?).join.filter (c.notExpired now)

/-- `sortObjects`' comparison: Groups in `order`, Object IDs ascending within one. -/
def sortsBefore (order : GroupOrder) (a b : CachedObject) : Bool :=
  if a.groupID != b.groupID then
    match order with
    | .descending => decide (b.groupID ≤ a.groupID)
    | .ascending => decide (a.groupID ≤ b.groupID)
  else decide (a.objectID ≤ b.objectID)

/-- `sortObjects`, stable as `slices.SortStableFunc` is. -/
def sortObjects (order : GroupOrder) (objs : List CachedObject) : List CachedObject :=
  objs.insertionSort fun a b => sortsBefore order a b = true

/-- `GetRange`: the live Objects of `[start, stop]`, sorted. -/
def getRange (c : ObjectCache) (now : Nat) (start stop : Location) (order : GroupOrder) :
    List CachedObject :=
  if stop.less start then []
  else
    sortObjects order <| (c.ring.filterMap id).filter fun obj =>
      !obj.loc.less start && !stop.less obj.loc && c.notExpired now obj

/-- `Delete`: the slot is left empty and the head is not rewound. -/
def delete (c : ObjectCache) (loc : Location) : ObjectCache :=
  match c.index.lookup loc with
  | none => c
  | some idx =>
    { c with
      ring := c.ring.set idx none
      index := c.index.erase loc
      size := c.size - 1 }

/-! ### The index -/

/-- **The index is exact**: it sends a Location to the slot that holds the Object there, and
    knows no other. -/
structure Indexed (c : ObjectCache) : Prop where
  head_lt : c.head < c.ring.length
  lookup : ∀ k i, c.index.lookup k = some i ↔ ∃ o, c.ring[i]? = some (some o) ∧ o.loc = k

theorem indexed_new (maxSize maxDuration : Nat) : (new maxSize maxDuration).Indexed where
  head_lt := by
    simp only [new, List.length_replicate]
    split_ifs with h
    · decide
    · exact Nat.pos_of_ne_zero h
  lookup k i := by
    have hempty (o : CachedObject) : (new maxSize maxDuration).ring[i]? ≠ some (some o) := by
      intro h
      cases List.eq_of_mem_replicate (List.mem_of_getElem? h)
    constructor
    · intro h
      cases h
    · intro h
      obtain ⟨o, ho, -⟩ := h
      exact absurd ho (hempty o)

variable {c : ObjectCache} {i : Nat}

section

variable (h : c.Indexed)
include h

theorem Indexed.slot_unique {j : Nat} {o o' : CachedObject}
    (hi : c.ring[i]? = some (some o)) (hj : c.ring[j]? = some (some o')) (hloc : o.loc = o'.loc) :
    i = j := by
  have hi' := (h.lookup o.loc i).mpr ⟨o, hi, rfl⟩
  have hj' := (h.lookup o.loc j).mpr ⟨o', hj, hloc.symm⟩
  exact Option.some.inj (hi'.symm.trans hj')

/-- Writing `new` into slot `idx`, with an index that forgets what was there and knows `new`. -/
theorem Indexed.set {c' : ObjectCache} {idx : Nat} {slot : Option CachedObject}
    (hidx : idx < c.ring.length) (hring : c'.ring = c.ring.set idx slot)
    (hhead : c'.head < c.ring.length)
    (hslot : ∀ k, c'.index.lookup k = some idx ↔ ∃ o, slot = some o ∧ o.loc = k)
    (hother : ∀ k i, i ≠ idx → (c'.index.lookup k = some i ↔ c.index.lookup k = some i)) :
    c'.Indexed where
  head_lt := by rwa [hring, List.length_set]
  lookup k i := by
    rw [hring]
    by_cases hi : i = idx
    · subst hi
      rw [hslot, List.getElem?_set_self hidx]
      simp only [Option.some.injEq]
    · rw [hother k i hi, h.lookup, List.getElem?_set_ne (Ne.symm hi)]

theorem Indexed.lt_of_lookup {k : Location} (hk : c.index.lookup k = some i) :
    i < c.ring.length := by
  obtain ⟨o, ho, -⟩ := (h.lookup k i).mp hk
  exact (List.getElem?_eq_some_iff.mp ho).1

theorem Indexed.loc_of_lookup {k k' : Location} (hk : c.index.lookup k = some i)
    (hk' : c.index.lookup k' = some i) : k = k' := by
  obtain ⟨o, ho, rfl⟩ := (h.lookup k i).mp hk
  obtain ⟨o', ho', rfl⟩ := (h.lookup k' i).mp hk'
  rw [ho] at ho'
  cases ho'
  rfl

theorem Indexed.insertHead {src : CachedObject} {index : GoMap Location Nat}
    (size : Nat) (hnew : c.index.lookup src.loc = none) (hfree : ∀ k, index.lookup k ≠ some c.head)
    (hkeep : ∀ k i, i ≠ c.head → (index.lookup k = some i ↔ c.index.lookup k = some i)) :
    ObjectCache.Indexed
      { c with
        ring := c.ring.set c.head (some src)
        index := index.insert src.loc c.head
        head := (c.head + 1) % c.ring.length
        size := size } := by
  refine h.set h.head_lt rfl (Nat.mod_lt _ (Nat.zero_lt_of_lt h.head_lt)) ?_ ?_
  · intro k
    by_cases hk : k = src.loc
    · subst hk
      simp [lookup_insert]
    · rw [lookup_insert_ne hk]
      simp [hfree k, Ne.symm hk]
  · intro k i hi
    by_cases hk : k = src.loc
    · subst hk
      simp [lookup_insert, hnew, Ne.symm hi]
    · rw [lookup_insert_ne hk]
      exact hkeep k i hi

theorem Indexed.insertLocked (src : CachedObject) : (c.insertLocked src).Indexed := by
  unfold ObjectCache.insertLocked
  cases hidx : c.index.lookup src.loc with
  | some idx =>
    refine h.set (h.lt_of_lookup hidx) rfl h.head_lt ?_ (fun _ _ _ => Iff.rfl)
    intro k
    constructor
    · intro hk
      exact ⟨src, rfl, h.loc_of_lookup hidx hk⟩
    · intro hk
      obtain ⟨o, ho, rfl⟩ := hk
      cases ho
      exact hidx
  | none =>
    cases hprev : (c.ring[c.head]?).join with
    | some prev =>
      have hlook : c.index.lookup prev.loc = some c.head :=
        (h.lookup _ _).mpr ⟨prev, Option.join_eq_some_iff.mp hprev, rfl⟩
      apply h.insertHead _ hidx
      · intro k
        by_cases hk : k = prev.loc
        · rw [hk, lookup_erase]
          nofun
        · rw [lookup_erase_ne hk]
          exact fun hk' => hk (h.loc_of_lookup hk' hlook)
      · intro k i hi
        by_cases hk : k = prev.loc
        · rw [hk, lookup_erase, hlook]
          simp [Ne.symm hi]
        · rw [lookup_erase_ne hk]
    | none =>
      refine h.insertHead _ hidx ?_ (fun _ _ _ => Iff.rfl)
      intro k hk
      obtain ⟨o, ho, -⟩ := (h.lookup k c.head).mp hk
      rw [ho] at hprev
      cases hprev

theorem Indexed.put (now : Nat) (obj : CachedObject) :
    (c.put now obj).Indexed := h.insertLocked _

theorem Indexed.delete (loc : Location) : (c.delete loc).Indexed := by
  unfold ObjectCache.delete
  cases hidx : c.index.lookup loc with
  | none => exact h
  | some idx =>
    refine h.set (h.lt_of_lookup hidx) rfl h.head_lt ?_ ?_
    · intro k
      by_cases hk : k = loc
      · subst hk
        simp
      · rw [lookup_erase_ne hk]
        have hne : c.index.lookup k ≠ some idx := fun hk' => hk (h.loc_of_lookup hk' hidx)
        simp [hne]
    · intro k i hi
      by_cases hk : k = loc
      · rw [hk, lookup_erase, hidx]
        simp [Ne.symm hi]
      · rw [lookup_erase_ne hk]

theorem Indexed.getRange_nodup (now : Nat) (start stop : Location)
    (order : GroupOrder) : ((c.getRange now start stop order).map (·.loc)).Nodup := by
  have hring : ((c.ring.filterMap id).map (·.loc)).Nodup := by
    refine List.pairwise_map.mpr (List.pairwise_filterMap.mpr (List.pairwise_iff_getElem.mpr ?_))
    intro i j hi hj hij o ho o' ho' heq
    have hi' := (List.getElem?_eq_getElem hi).trans (congrArg some ho)
    have hj' := (List.getElem?_eq_getElem hj).trans (congrArg some ho')
    exact hij.ne (h.slot_unique hi' hj' heq)
  unfold ObjectCache.getRange
  split_ifs
  · exact .nil
  · refine ((List.perm_insertionSort _ _).map _).nodup_iff.mpr ?_
    exact hring.sublist (List.filter_sublist.map _)

end

end ObjectCache
end Relay
end MoqGo
