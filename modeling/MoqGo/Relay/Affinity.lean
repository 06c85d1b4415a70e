import Mathlib.Data.String.Basic
import MoqGo.Discovery.Memory
import MoqGo.Wire.Fields

/-!
# Which upstreams a relay chooses (`pkg/relay/relay_upstream_pool.go`)

Every relay of a fleet ranks the advertisers of a namespace by **rendezvous weight**, a hash of the
namespace and the address, and takes the first that answer. The order of two addresses is that of
one key (`rank_le_iff`), a linear order, so a ranking has one sequence of addresses whatever order
Discovery returned, and any unstable sort gives the same.

What `resolveUpstreams` takes without a bound is in rank order and without repetition, so its
members determine it (`mem_picks`, `picks_eq`); a bound cuts it short (`resolveFrom_take`).
-/

namespace MoqGo.Relay

open Wire Discovery

/-- FNV-1a over 64 bits, continued from `h`. -/
def fnv64a (h : UInt64) (bs : List UInt8) : UInt64 :=
  bs.foldl (fun h b => (h ^^^ b.toUInt64) * 1099511628211) h

/-- `hrwWeight`. -/
def hrwWeight (nsKey : List UInt8) (addr : Addr) : UInt64 :=
  fnv64a (fnv64a 14695981039346656037 nsKey) addr.toUTF8.data.toList

/-- `namespaceAffinityKey`. -/
def namespaceAffinityKey (ns : TrackNamespace) : List UInt8 := appendTrackNamespace ns

/-- The comparison of `rankByAffinity` is not positive: the heavier first, then by address. -/
def Precedes (ns : TrackNamespace) (a b : Addr) : Prop :=
  hrwWeight (namespaceAffinityKey ns) b < hrwWeight (namespaceAffinityKey ns) a ∨
    hrwWeight (namespaceAffinityKey ns) a = hrwWeight (namespaceAffinityKey ns) b ∧ a ≤ b

instance (ns : TrackNamespace) (a b : Addr) : Decidable (Precedes ns a b) :=
  inferInstanceAs (Decidable (_ ∨ _))

def addrs (infos : List NamespaceInfo) : List Addr := infos.map (·.relayAddr)

/-- What `rankByAffinity` may leave in place of `infos`: `slices.SortFunc` is not stable. -/
def RankByAffinity (ns : TrackNamespace) (infos ranked : List NamespaceInfo) : Prop :=
  ranked.Perm infos ∧ ranked.Pairwise fun a b => Precedes ns a.relayAddr b.relayAddr

/-- `rankByAffinity`, with a stable sort. -/
def rankByAffinity (ns : TrackNamespace) (infos : List NamespaceInfo) : List NamespaceInfo :=
  infos.insertionSort fun a b => Precedes ns a.relayAddr b.relayAddr

/-- What `get` and `goingAway` say of an address. -/
inductive Upstream
  | failed
  | draining
  | live
deriving DecidableEq, Repr

/-- The loop of `resolveUpstreams`, over what is left of the ranking: the addresses of the
    sessions it returns, and whether a draining relay was skipped. -/
def resolveFrom (self : Addr) (fanIn : Int) (get : Addr → Upstream) :
    List Addr → List Addr → Bool → List NamespaceInfo → List Addr × Bool
  | _, out, draining, [] => (out, draining)
  | seen, out, draining, info :: infos =>
    let a := info.relayAddr
    if a = "" ∨ a = self ∨ a ∈ seen then resolveFrom self fanIn get seen out draining infos
    else
      match get a with
      | .failed => resolveFrom self fanIn get (a :: seen) out draining infos
      | .draining => resolveFrom self fanIn get (a :: seen) out true infos
      | .live =>
        if 0 < fanIn ∧ fanIn ≤ (out ++ [a]).length then (out ++ [a], draining)
        else resolveFrom self fanIn get (a :: seen) (out ++ [a]) draining infos

/-- `resolveUpstreams`, once `infos` are ranked. -/
def resolveUpstreams (self : Addr) (fanIn : Int) (get : Addr → Upstream)
    (ranked : List NamespaceInfo) : List Addr × Bool :=
  resolveFrom self fanIn get [] [] false ranked

/-! ## The ranking -/

/-- Where an address ranks. -/
def rank (ns : TrackNamespace) (a : Addr) : ℕᵒᵈ ×ₗ String :=
  toLex (.toDual (hrwWeight (namespaceAffinityKey ns) a).toNat, a)

variable {ns : TrackNamespace} {infos infos' ranked ranked' : List NamespaceInfo}
  {self : Addr} {fanIn : Int} {get : Addr → Upstream}

theorem rank_le_iff {a b : Addr} : Precedes ns a b ↔ rank ns a ≤ rank ns b := by
  rw [Precedes, rank, rank, Prod.Lex.toLex_le_toLex, UInt64.lt_iff_toNat_lt, ← UInt64.toNat_inj]
  rfl

theorem rank_injective : Function.Injective (rank ns) := fun _ _ h =>
  congrArg (fun r => (ofLex r).2) h

theorem rankByAffinity_ranks (ns : TrackNamespace) (infos : List NamespaceInfo) :
    RankByAffinity ns infos (rankByAffinity ns infos) :=
  ⟨List.perm_insertionSort _ _, (Lib.pairwise_sort (fun i => rank ns i.relayAddr)
    (fun _ _ => rank_le_iff) infos).imp rank_le_iff.mpr⟩

theorem RankByAffinity.mem_addrs (h : RankByAffinity ns infos ranked) (a : Addr) :
    a ∈ addrs ranked ↔ a ∈ addrs infos :=
  (h.1.map _).mem_iff

theorem RankByAffinity.sorted (h : RankByAffinity ns infos ranked) :
    (addrs ranked).Pairwise fun a b => rank ns a ≤ rank ns b :=
  List.pairwise_map.mpr (h.2.imp rank_le_iff.mp)

theorem eq_of_ranked {l l' : List Addr} (hl : l.Pairwise fun a b => rank ns a ≤ rank ns b)
    (hl' : l'.Pairwise fun a b => rank ns a ≤ rank ns b) (h : l.Perm l') : l = l' :=
  h.eq_of_pairwise (fun _ _ _ _ hab hba => rank_injective (le_antisymm hab hba)) hl hl'

/-! ## The choice -/

/-- What the loop takes where nothing bounds it. -/
def picks (self : Addr) (get : Addr → Upstream) : List Addr → List NamespaceInfo → List Addr
  | _, [] => []
  | seen, info :: infos =>
    let a := info.relayAddr
    if a = "" ∨ a = self ∨ a ∈ seen then picks self get seen infos
    else if get a = .live then a :: picks self get (a :: seen) infos
    else picks self get (a :: seen) infos

/-- **The loop takes the first `fanIn` of what it would take without a bound.** -/
theorem resolveFrom_take {seen out : List Addr} {draining : Bool}
    (hout : 0 < fanIn → (out.length : Int) < fanIn) :
    (resolveFrom self fanIn get seen out draining infos).1 = out ++
      if 0 < fanIn then (picks self get seen infos).take (fanIn.toNat - out.length)
      else picks self get seen infos := by
  induction infos generalizing seen out draining with
  | nil => simp [resolveFrom, picks]
  | cons info infos ih =>
    by_cases hskip : info.relayAddr = "" ∨ info.relayAddr = self ∨ info.relayAddr ∈ seen
    · simp only [resolveFrom, picks, if_pos hskip, ih hout]
    · cases hget : get info.relayAddr with
      | failed | draining =>
        simp only [resolveFrom, picks, if_neg hskip, hget, ih hout, reduceCtorEq, if_false]
      | live =>
        simp only [resolveFrom, picks, if_neg hskip, hget, if_true]
        by_cases hfan : 0 < fanIn
        · obtain ⟨n, hn⟩ : ∃ n, fanIn.toNat - out.length = n + 1 :=
            ⟨fanIn.toNat - out.length - 1, by have := hout hfan; omega⟩
          rw [if_pos hfan, hn, List.take_succ_cons]
          split_ifs with hfull
          · have : n = 0 := by simp at hfull; omega
            simp [this]
          · have hlen : fanIn.toNat - (out ++ [info.relayAddr]).length = n := by simp; omega
            rw [ih (fun _ => not_le.mp fun h => hfull ⟨hfan, h⟩), if_pos hfan, hlen]
            simp
        · rw [if_neg hfan, if_neg fun h => hfan h.1, ih fun h => absurd h hfan, if_neg hfan]
          simp

theorem mem_picks {seen : List Addr} {a : Addr} :
    a ∈ picks self get seen infos ↔
      a ∈ addrs infos ∧ a ∉ seen ∧ a ≠ "" ∧ a ≠ self ∧ get a = .live := by
  induction infos generalizing seen with
  | nil => simp [picks, addrs]
  | cons info infos ih =>
    simp only [picks, addrs, List.map_cons, List.mem_cons] at ih ⊢
    split_ifs with hskip hlive <;> simp only [List.mem_cons, ih] <;> grind

theorem picks_sublist {seen : List Addr} : (picks self get seen infos).Sublist (addrs infos) := by
  induction infos generalizing seen with
  | nil => exact .slnil
  | cons info infos ih =>
    simp only [picks]
    split_ifs
    · exact ih.cons _
    · exact ih.cons_cons _
    · exact ih.cons _

theorem nodup_picks {seen : List Addr} : (picks self get seen infos).Nodup := by
  induction infos generalizing seen with
  | nil => exact .nil
  | cons info infos ih =>
    simp only [picks]
    split_ifs
    · exact ih
    · exact List.nodup_cons.mpr ⟨fun h => (mem_picks.mp h).2.1 List.mem_cons_self, ih⟩
    · exact ih

theorem picks_eq (h : RankByAffinity ns infos ranked) (h' : RankByAffinity ns infos' ranked')
    {self' : Addr} {l : List Addr} (hl : l.Sublist (picks self' get [] ranked'))
    (hmem : ∀ a, a ∈ picks self get [] ranked ↔ a ∈ l) : picks self get [] ranked = l :=
  eq_of_ranked (h.sorted.sublist picks_sublist) (h'.sorted.sublist (hl.trans picks_sublist))
    ((List.perm_ext_iff_of_nodup nodup_picks (nodup_picks.sublist hl)).mpr hmem)

theorem take_erase_subset {x : Addr} : ∀ {l : List Addr} {k : Nat},
    (l.erase x).take k ⊆ l.take (k + 1) := by
  intro l
  induction l with
  | nil => simp
  | cons b l ih =>
    intro k
    by_cases hb : b = x
    · rw [hb, List.erase_cons_head, List.take_succ_cons]
      exact List.subset_cons_self _ _
    · rw [List.erase_cons_tail (by simpa using hb)]
      cases k with
      | zero => simp
      | succ k => exact List.cons_subset_cons _ ih

/-- **Relays of a fleet choose the same upstreams.** Whatever order Discovery returns advertisements
    in, and however the sort leaves equal ones, the ranking's addresses are one sequence; and the
    distinct addresses are, however often each is advertised. So two relays that are not
    advertised choose the same, in one order, no address twice and at most `fanIn`. One more
    address advertised removes at most one from what is chosen. -/
theorem fleet_chooses_same (h : RankByAffinity ns infos ranked)
    (h' : RankByAffinity ns infos' ranked') :
    (infos.Perm infos' → addrs ranked = addrs ranked') ∧
    ((∀ a, a ∈ addrs infos ↔ a ∈ addrs infos') →
      (addrs ranked).dedup = (addrs ranked').dedup ∧
      ∀ self self' fanIn get, self ∉ addrs infos → self' ∉ addrs infos →
        (resolveUpstreams self fanIn get ranked).1 =
          (resolveUpstreams self' fanIn get ranked').1) ∧
    ∀ self fanIn get,
      (resolveUpstreams self fanIn get ranked).1.Nodup ∧
      (0 < fanIn → ((resolveUpstreams self fanIn get ranked).1.length : Int) ≤ fanIn) ∧
      ∀ x, x ∉ addrs infos → (∀ a, a ∈ addrs infos' ↔ a = x ∨ a ∈ addrs infos) →
        ∃ y, ∀ a ∈ (resolveUpstreams self fanIn get ranked).1,
          a ∉ (resolveUpstreams self fanIn get ranked').1 → a = y := by
  have hresolve : ∀ self fanIn get ranked, (resolveUpstreams self fanIn get ranked).1 =
      if 0 < fanIn then (picks self get [] ranked).take fanIn.toNat else picks self get [] ranked :=
    fun self fanIn get ranked => resolveFrom_take fun h => h
  refine ⟨fun hperm => ?_, fun hset => ⟨?_, fun self self' fanIn get hs hs' => ?_⟩,
    fun self fanIn get => ⟨?_, fun hfan => ?_, fun x hx hset => ?_⟩⟩
  · exact eq_of_ranked h.sorted h'.sorted ((h.1.trans (hperm.trans h'.1.symm)).map _)
  · refine eq_of_ranked (h.sorted.sublist (List.dedup_sublist _))
      (h'.sorted.sublist (List.dedup_sublist _)) ?_
    refine (List.perm_ext_iff_of_nodup (List.nodup_dedup _) (List.nodup_dedup _)).mpr fun a => ?_
    rw [List.mem_dedup, List.mem_dedup, h.mem_addrs, h'.mem_addrs, hset]
  · have heq : picks self get [] ranked = picks self' get [] ranked' := by
      refine picks_eq h h' (.refl _) fun a => ?_
      rw [mem_picks, mem_picks, h.mem_addrs, h'.mem_addrs, ← hset]
      grind
    rw [hresolve, hresolve, heq]
  · rw [hresolve]
    split_ifs
    · exact nodup_picks.sublist (List.take_sublist _ _)
    · exact nodup_picks
  · rw [hresolve, if_pos hfan, List.length_take]
    omega
  · -- what was chosen is what is chosen now, without `x`
    have heq : picks self get [] ranked = (picks self get [] ranked').erase x := by
      refine picks_eq h h' List.erase_sublist fun a => ?_
      rw [nodup_picks.mem_erase_iff, mem_picks, mem_picks, h.mem_addrs, h'.mem_addrs, hset]
      grind
    rw [hresolve, hresolve, heq]
    refine ⟨((picks self get [] ranked')[fanIn.toNat]?).getD "", fun a ha hnot => ?_⟩
    split_ifs at ha hnot with hfan
    · have hmem := take_erase_subset ha
      rw [List.take_add_one, List.mem_append] at hmem
      rcases hmem with hmem | hmem
      · exact absurd hmem hnot
      · rw [Option.mem_toList.mp hmem]
        rfl
    · exact absurd (List.mem_of_mem_erase ha) hnot

def twoRelays : List NamespaceInfo := [⟨[], "a", 0⟩, ⟨[], "b", 0⟩, ⟨[], "a", 1⟩]

theorem fleet_chooses_same_twoRelays :
    RankByAffinity [] twoRelays (rankByAffinity [] twoRelays) ∧
      (resolveUpstreams "c" 1 (fun _ => .live) (rankByAffinity [] twoRelays)).1 = ["a"] ∧
      addrs (rankByAffinity [] twoRelays.reverse) = addrs (rankByAffinity [] twoRelays) := by
  have h := fun infos => rankByAffinity_ranks [] infos
  refine ⟨h _, by decide +kernel, ?_⟩
  exact (fleet_chooses_same (h _) (h _)).1 (List.reverse_perm _)

end MoqGo.Relay
