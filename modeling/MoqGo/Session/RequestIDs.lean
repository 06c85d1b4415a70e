import MoqGo.Lib.Evict
import MoqGo.Message.Location

/-!
# The peer's Request IDs (`pkg/moqt/session/request.go`)

Each request consumes an ID: the client's are even, the server's odd, and a peer allocates them in
steps of two (§6.4.2.1). Requests travel on separate streams, so an ID below the highest one seen
need not be a duplicate: the session keeps the IDs it has skipped, up to 1024 of them, and lets
each be claimed once. A jump beyond that keeps the newest.

**Only a crowded record forgets** (`Recorded.stays_or_crowded`): an unclaimed ID that is not in
the record was left out or evicted when the record held 1024 larger ones.

The map of gaps is a list without repetitions. The field `accepted` is written and never read: the
IDs that were accepted, in order.
-/

namespace MoqGo.Session

open List UInt64

/-- `Session.role`. -/
inductive Role
  | client
  | server
deriving DecidableEq, Repr

/-- `ErrRequestIDParityViolation` and `ErrDuplicateRequestID`. -/
inductive RequestIDError
  | parityViolation (requestID : UInt64) (expectedEven : Bool)
  | duplicate (requestID maxSeen : UInt64)
deriving DecidableEq, Repr

/-- The part of a `Session` that `CheckPeerRequestID` works on. -/
structure PeerRequestIDs where
  role : Role
  peerRequestIDSeen : Bool := false
  peerRequestIDMax : UInt64 := 0
  peerRequestIDGaps : List UInt64 := []
  accepted : List UInt64 := []
deriving DecidableEq, Repr

def maxTrackedRequestIDGaps : Nat := 1024

/-- `evictLowestGapsLocked`. -/
def evictLowestGapsLocked (gaps : List UInt64) (n : Nat) : List UInt64 :=
  Lib.evict (· ≤ ·) (min n gaps.length) gaps

namespace PeerRequestIDs

/-- The loop of `recordRequestIDGapsLocked`. -/
def insertGaps : Nat → UInt64 → List UInt64 → List UInt64
  | 0, _, gaps => gaps
  | n + 1, id, gaps => insertGaps n (id - 2) (gaps.insert (id - 2))

/-- `recordRequestIDGapsLocked`. -/
def recordRequestIDGapsLocked (s : PeerRequestIDs) (rid : UInt64) (peerMustBeEven : Bool) :
    PeerRequestIDs :=
  let lo := if s.peerRequestIDSeen then s.peerRequestIDMax + 2 else if peerMustBeEven then 0 else 1
  if rid ≤ lo then s
  else
    let d := (rid - lo) / 2
    let newGaps := if d.toNat < maxTrackedRequestIDGaps then d.toNat else maxTrackedRequestIDGaps
    let excess := s.peerRequestIDGaps.length + newGaps - maxTrackedRequestIDGaps
    let gaps := if excess > 0 then evictLowestGapsLocked s.peerRequestIDGaps excess
      else s.peerRequestIDGaps
    { s with peerRequestIDGaps := insertGaps newGaps rid gaps }

/-- `CheckPeerRequestID`. -/
def checkPeerRequestID (s : PeerRequestIDs) (rid : UInt64) :
    PeerRequestIDs × Option RequestIDError :=
  let peerMustBeEven := s.role == .server
  if peerMustBeEven && rid % 2 != 0 then (s, some (.parityViolation rid true))
  else if !peerMustBeEven && rid % 2 != 1 then (s, some (.parityViolation rid false))
  else if !s.peerRequestIDSeen || s.peerRequestIDMax < rid then
    ({ s.recordRequestIDGapsLocked rid peerMustBeEven with
      peerRequestIDSeen := true, peerRequestIDMax := rid, accepted := s.accepted ++ [rid] }, none)
  else if rid ∈ s.peerRequestIDGaps then
    ({ s with
      peerRequestIDGaps := s.peerRequestIDGaps.erase rid
      accepted := s.accepted ++ [rid] }, none)
  else (s, some (.duplicate rid s.peerRequestIDMax))

/-- A session after the given calls. -/
def calls (role : Role) (rids : List UInt64) : PeerRequestIDs :=
  rids.foldl (fun s rid => (s.checkPeerRequestID rid).1) { role := role }

end PeerRequestIDs

/-- The peer of a session in this role allocates such IDs. -/
def Role.PeerParity (role : Role) (id : UInt64) : Prop :=
  if role = .server then id % 2 = 0 else id % 2 = 1

instance (role : Role) (id : UInt64) : Decidable (role.PeerParity id) := by
  unfold Role.PeerParity
  infer_instance

def Role.peerBase (role : Role) : Nat := if role = .server then 0 else 1

theorem Role.peerParity_iff {role : Role} {id : UInt64} :
    role.PeerParity id ↔ id.toNat % 2 = role.peerBase := by
  unfold PeerParity peerBase
  split
  · rw [← UInt64.toNat_inj, UInt64.toNat_mod]
    rfl
  · rw [← UInt64.toNat_inj, UInt64.toNat_mod]
    rfl

namespace PeerRequestIDs

/-! ## Recording the gaps of a jump -/

variable {id rid : UInt64} {n : Nat} {s : PeerRequestIDs} {kept : List UInt64} {role : Role}

theorem toNat_sub_two (h : 2 ≤ id.toNat) : (id - 2).toNat = id.toNat - 2 := by
  have h2 : (2 : UInt64) ≤ id := le_iff_toNat_le.mpr h
  rw [UInt64.toNat_sub_of_le _ _ h2]
  rfl

theorem mem_insertGaps : ∀ {id : UInt64} {gaps : List UInt64}, 2 * n ≤ id.toNat →
    ∀ g, g ∈ insertGaps n id gaps ↔
      g ∈ gaps ∨ ∃ k, 1 ≤ k ∧ k ≤ n ∧ g.toNat + 2 * k = id.toNat := by
  induction n with
  | zero =>
    intro id gaps _ g
    simp only [insertGaps, iff_self_or]
    rintro ⟨k, h1, h2, -⟩
    omega
  | succ n ih =>
    intro id gaps hle g
    have hsub : (id - 2).toNat = id.toNat - 2 := toNat_sub_two (by omega)
    rw [insertGaps, ih (by omega), mem_insert_iff, ← UInt64.toNat_inj, hsub]
    constructor
    · rintro ((heq | hin) | ⟨k, h1, h2, heq⟩)
      · exact .inr ⟨1, by omega, by omega, by omega⟩
      · exact .inl hin
      · exact .inr ⟨k + 1, by omega, by omega, by omega⟩
    · rintro (hin | ⟨k, h1, h2, heq⟩)
      · exact .inl (.inr hin)
      · by_cases hk : k = 1
        · exact .inl (.inl (by omega))
        · exact .inr ⟨k - 1, by omega, by omega, by omega⟩

theorem nodup_insertGaps : ∀ {id : UInt64} {gaps : List UInt64}, gaps.Nodup →
    (insertGaps n id gaps).Nodup := by
  induction n with
  | zero => exact fun h => h
  | succ n ih => exact fun h => ih (h.insert)

theorem length_insertGaps : ∀ {id : UInt64} {gaps : List UInt64}, 2 * n ≤ id.toNat →
    (∀ g ∈ gaps, g.toNat + 2 * n < id.toNat ∨ id.toNat ≤ g.toNat) →
    (insertGaps n id gaps).length = gaps.length + n := by
  induction n with
  | zero => exact fun _ _ => rfl
  | succ n ih =>
    intro id gaps hle hgaps
    have hsub : (id - 2).toNat = id.toNat - 2 := toNat_sub_two (by omega)
    have hnew : id - 2 ∉ gaps := by
      intro hin
      have hg := hgaps _ hin
      omega
    rw [insertGaps, insert_of_not_mem hnew, ih (by omega), length_cons]
    · omega
    · intro g hg
      rcases mem_cons.mp hg with rfl | hg
      · exact .inr (Nat.le_refl _)
      · have hg := hgaps g hg
        omega

/-- The lowest ID of the peer above the mark. -/
def low (s : PeerRequestIDs) : Nat :=
  if s.peerRequestIDSeen then s.peerRequestIDMax.toNat + 2 else s.role.peerBase

/-- What a session keeps. -/
structure Ok (s : PeerRequestIDs) : Prop where
  seen : s.peerRequestIDSeen = true → s.peerRequestIDMax ∈ s.accepted
  accepted : ∀ id ∈ s.accepted, s.role.PeerParity id ∧ id.toNat < s.low
  gaps : ∀ g ∈ s.peerRequestIDGaps, s.role.PeerParity g ∧ g.toNat < s.low ∧ g ∉ s.accepted
  acceptedNodup : s.accepted.Nodup
  gapsNodup : s.peerRequestIDGaps.Nodup
  bounded : s.peerRequestIDGaps.length ≤ maxTrackedRequestIDGaps

instance : Std.Total fun a b : UInt64 => a ≤ b := ⟨UInt64.le_total⟩

instance : IsTrans UInt64 fun a b => a ≤ b := ⟨fun _ _ _ => UInt64.le_trans⟩

/-- **What a jump to `rid` records**: the `n` IDs below it, and of the old gaps those in `kept`. An
    ID that is in neither has 1024 larger ones in the record. -/
structure Recorded (s : PeerRequestIDs) (rid : UInt64) (n : Nat) (kept : List UInt64) : Prop where
  fits : s.low + 2 * n ≤ rid.toNat
  keptNodup : kept.Nodup
  keptSub : kept ⊆ s.peerRequestIDGaps
  bounded : kept.length + n ≤ maxTrackedRequestIDGaps
  new : ∀ g, s.role.PeerParity g → s.low ≤ g.toNat → g.toNat < rid.toNat →
    (∃ k, 1 ≤ k ∧ k ≤ n ∧ g.toNat + 2 * k = rid.toNat) ∨
      n = maxTrackedRequestIDGaps ∧ g.toNat + 2 * n < rid.toNat
  old : ∀ g ∈ s.peerRequestIDGaps, g ∈ kept ∨
    kept.length + n = maxTrackedRequestIDGaps ∧ ∀ b ∈ kept, g < b

theorem low_le (h : s.Ok) (hparity : s.role.PeerParity rid)
    (habove : s.peerRequestIDSeen = true → s.peerRequestIDMax < rid) : s.low ≤ rid.toNat := by
  rw [Role.peerParity_iff] at hparity
  unfold low
  split
  · next hseen =>
    have hmax := (h.accepted _ (h.seen hseen)).1
    rw [Role.peerParity_iff] at hmax
    have hlt := lt_iff_toNat_lt.mp (habove hseen)
    omega
  · omega

theorem toNat_lo (hlow : s.low ≤ rid.toNat) : (if s.peerRequestIDSeen then s.peerRequestIDMax + 2
      else if (s.role == Role.server) = true then 0 else 1 : UInt64).toNat = s.low := by
  have hrid := rid.toNat_lt
  unfold low at hlow ⊢
  split
  · next hseen =>
    rw [if_pos hseen] at hlow
    rw [UInt64.toNat_add, show (2 : UInt64).toNat = 2 from rfl]
    omega
  · cases hrole : s.role <;> simp [Role.peerBase]

theorem kept_spec {gaps : List UInt64} (hnodup : gaps.Nodup)
    (hbounded : gaps.length ≤ maxTrackedRequestIDGaps) (hn : n ≤ maxTrackedRequestIDGaps)
    (hkept : kept = if gaps.length + n - maxTrackedRequestIDGaps > 0 then
      evictLowestGapsLocked gaps (gaps.length + n - maxTrackedRequestIDGaps) else gaps) :
    kept.Nodup ∧ kept ⊆ gaps ∧ kept.length + n ≤ maxTrackedRequestIDGaps ∧
      ∀ g ∈ gaps, g ∈ kept ∨
        kept.length + n = maxTrackedRequestIDGaps ∧ ∀ b ∈ kept, g < b := by
  split at hkept
  · have hlength : kept.length + n = maxTrackedRequestIDGaps := by
      rw [hkept, evictLowestGapsLocked, Lib.length_evict _ hnodup]
      omega
    refine ⟨hkept ▸ Lib.nodup_evict _ hnodup, fun g hg => ?_, Nat.le_of_eq hlength, fun g hg => ?_⟩
    · rw [hkept] at hg
      exact Lib.mem_of_mem_evict _ hnodup hg
    · by_cases hin : g ∈ kept
      · exact .inl hin
      · refine .inr ⟨hlength, fun b hb => ?_⟩
        rw [hkept] at hin hb
        have hle : g ≤ b := ((Lib.mem_evict_or _ hnodup hg).resolve_left hin) b hb
        have hne : g ≠ b := fun heq => hin (heq ▸ hb)
        exact UInt64.lt_of_le_of_ne hle hne
  · subst hkept
    exact ⟨hnodup, List.Subset.refl _, by omega, fun g hg => .inl hg⟩

theorem recorded (h : s.Ok) (hparity : s.role.PeerParity rid)
    (habove : s.peerRequestIDSeen = true → s.peerRequestIDMax < rid) :
    ∃ n kept, s.Recorded rid n kept ∧
      s.recordRequestIDGapsLocked rid (s.role == .server) =
        { s with peerRequestIDGaps := insertGaps n rid kept } := by
  have hlow := low_le h hparity habove
  have hlo := toNat_lo hlow
  simp only [recordRequestIDGapsLocked]
  generalize hlo' : (if s.peerRequestIDSeen then s.peerRequestIDMax + 2
      else if (s.role == Role.server) = true then 0 else 1 : UInt64) = lo at hlo ⊢
  rw [Role.peerParity_iff] at hparity
  split
  · next hle =>
    have hle := le_iff_toNat_le.mp hle
    refine ⟨0, s.peerRequestIDGaps, ⟨by omega, h.gapsNodup, List.Subset.refl _, h.bounded,
      fun g _ hg hlt => by omega, fun g hg => .inl hg⟩, rfl⟩
  · next hgt =>
    have hgt : lo < rid := UInt64.not_le.mp hgt
    have hd : ((rid - lo) / 2).toNat = (rid.toNat - s.low) / 2 := by
      rw [UInt64.toNat_div, UInt64.toNat_sub_of_le _ _ (UInt64.le_of_lt hgt), hlo]
      rfl
    rw [hd]
    generalize hn : (if (rid.toNat - s.low) / 2 < maxTrackedRequestIDGaps then
      (rid.toNat - s.low) / 2 else maxTrackedRequestIDGaps) = n
    have hn' : n ≤ maxTrackedRequestIDGaps ∧ 2 * n ≤ rid.toNat - s.low ∧
        (n = maxTrackedRequestIDGaps ∨ n = (rid.toNat - s.low) / 2) := by
      subst hn
      split <;> omega
    obtain ⟨hnodup, hsub, hbounded, hold⟩ := kept_spec h.gapsNodup h.bounded hn'.1 rfl
    refine ⟨n, _, ⟨by omega, hnodup, hsub, hbounded, fun g hg hge hlt => ?_, hold⟩, rfl⟩
    rw [Role.peerParity_iff] at hg
    by_cases hnew : g.toNat + 2 * n < rid.toNat
    · refine .inr ⟨?_, hnew⟩
      omega
    · exact .inl ⟨(rid.toNat - g.toNat) / 2, by omega, by omega, by omega⟩

/-! ## A call -/

/-- The four outcomes of a call. -/
inductive Checked (s : PeerRequestIDs) (rid : UInt64) : PeerRequestIDs → Bool → Prop
  | parity : ¬ s.role.PeerParity rid → Checked s rid s false
  | above {n : Nat} {kept : List UInt64} : s.role.PeerParity rid →
      (s.peerRequestIDSeen = true → s.peerRequestIDMax < rid) → s.Recorded rid n kept →
      Checked s rid
        { s with
          peerRequestIDSeen := true
          peerRequestIDMax := rid
          peerRequestIDGaps := insertGaps n rid kept
          accepted := s.accepted ++ [rid] } true
  | late : s.role.PeerParity rid → s.peerRequestIDSeen = true → rid ∈ s.peerRequestIDGaps →
      Checked s rid
        { s with
          peerRequestIDGaps := s.peerRequestIDGaps.erase rid
          accepted := s.accepted ++ [rid] } true
  | duplicate : s.role.PeerParity rid → s.peerRequestIDSeen = true → rid ≤ s.peerRequestIDMax →
      rid ∉ s.peerRequestIDGaps → Checked s rid s false

theorem Ok.checked (h : s.Ok) (rid : UInt64) :
    Checked s rid (s.checkPeerRequestID rid).1 (s.checkPeerRequestID rid).2.isNone := by
  have hparity : s.role.PeerParity rid ↔ ¬ ((s.role == .server) && rid % 2 != 0) = true ∧
      ¬ (!(s.role == .server) && rid % 2 != 1) = true := by
    unfold Role.PeerParity
    cases s.role <;> simp
  simp only [checkPeerRequestID]
  split
  · next hbad => exact .parity fun hp => (hparity.mp hp).1 hbad
  · next hgood =>
    split
    · next hbad => exact .parity fun hp => (hparity.mp hp).2 hbad
    · next hgood' =>
      have hp := hparity.mpr ⟨hgood, hgood'⟩
      split
      · next habove =>
        have habove' : s.peerRequestIDSeen = true → s.peerRequestIDMax < rid := by
          intro hseen
          simpa [hseen] using habove
        obtain ⟨n, kept, hrec, heq⟩ := recorded h hp habove'
        rw [heq]
        exact .above hp habove' hrec
      · next hbelow =>
        rw [Bool.or_eq_true, not_or, Bool.not_eq_true, Bool.not_eq_false',
          decide_eq_true_eq] at hbelow
        split
        · next hin => exact .late hp hbelow.1 hin
        · next hout => exact .duplicate hp hbelow.1 (UInt64.not_lt.mp hbelow.2) hout

theorem Recorded.mem_gaps (h : s.Recorded rid n kept) (g : UInt64) : g ∈ insertGaps n rid kept ↔
      g ∈ kept ∨ ∃ k, 1 ≤ k ∧ k ≤ n ∧ g.toNat + 2 * k = rid.toNat := by
  have hfits := h.fits
  exact mem_insertGaps (by omega) g

theorem Recorded.length_gaps (h : s.Recorded rid n kept) (hok : s.Ok) :
    (insertGaps n rid kept).length = kept.length + n := by
  have hfits := h.fits
  refine length_insertGaps (by omega) fun g hg => .inl ?_
  have hlt := (hok.gaps g (h.keptSub hg)).2.1
  omega

theorem Recorded.gaps_ok (h : s.Recorded rid n kept) (hok : s.Ok) (hparity : s.role.PeerParity rid)
    {g : UInt64} (hg : g ∈ insertGaps n rid kept) :
    s.role.PeerParity g ∧ g.toNat < rid.toNat ∧ g ∉ s.accepted := by
  have hfits := h.fits
  rcases (h.mem_gaps g).mp hg with hg | ⟨k, hk, hkn, heq⟩
  · obtain ⟨hp, hlt, hout⟩ := hok.gaps g (h.keptSub hg)
    exact ⟨hp, by omega, hout⟩
  · rw [Role.peerParity_iff] at hparity ⊢
    refine ⟨by omega, by omega, fun hin => ?_⟩
    have hlt := (hok.accepted g hin).2
    omega

theorem Ok.check (h : s.Ok) (rid : UInt64) : (s.checkPeerRequestID rid).1.Ok := by
  have hc := h.checked rid
  generalize (s.checkPeerRequestID rid).1 = s', (s.checkPeerRequestID rid).2.isNone = ok at hc ⊢
  cases hc with
  | parity => exact h
  | duplicate => exact h
  | late hp hseen hin =>
    obtain ⟨-, hlt, hout⟩ := h.gaps rid hin
    refine
      { seen := fun _ => mem_append_left _ (h.seen hseen)
        accepted := fun id hid => ?_
        gaps := fun g hg => ?_
        acceptedNodup := h.acceptedNodup.append (nodup_singleton _) (by simpa using hout)
        gapsNodup := h.gapsNodup.erase _
        bounded := (length_erase_le).trans h.bounded }
    · rcases mem_append.mp hid with hid | hid
      · exact h.accepted id hid
      · rw [mem_singleton.mp hid]
        exact ⟨hp, hlt⟩
    · obtain ⟨hne, hg⟩ := h.gapsNodup.mem_erase_iff.mp hg
      obtain ⟨hgp, hglt, hgout⟩ := h.gaps g hg
      refine ⟨hgp, hglt, fun hin => ?_⟩
      rcases mem_append.mp hin with hin | hin
      · exact hgout hin
      · exact hne (mem_singleton.mp hin)
  | above hp habove hrec =>
    have hrid : s.low ≤ rid.toNat := low_le h hp habove
    have hnew : rid ∉ s.accepted := fun hin => Nat.not_lt.mpr hrid (h.accepted _ hin).2
    refine
      { seen := fun _ => mem_append_right _ (mem_singleton.mpr rfl)
        accepted := fun id hid => ?_
        gaps := fun g hg => ?_
        acceptedNodup := h.acceptedNodup.append (nodup_singleton _) (by simpa using hnew)
        gapsNodup := nodup_insertGaps hrec.keptNodup
        bounded := (hrec.length_gaps h).trans_le hrec.bounded }
    · show _ ∧ _ < rid.toNat + 2
      rcases mem_append.mp hid with hid | hid
      · obtain ⟨hparity, hlt⟩ := h.accepted id hid
        exact ⟨hparity, by omega⟩
      · rw [mem_singleton.mp hid]
        exact ⟨hp, by omega⟩
    · obtain ⟨hgp, hglt, hgout⟩ := hrec.gaps_ok h hp hg
      refine ⟨hgp, Nat.lt_add_right 2 hglt, fun hin => ?_⟩
      rcases mem_append.mp hin with hin | hin
      · exact hgout hin
      · rw [mem_singleton.mp hin] at hglt
        exact Nat.lt_irrefl _ hglt

/-! ## What is refused -/

theorem Ok.lt_max (h : s.Ok) (hid : s.role.PeerParity id) (hlow : id.toNat < s.low)
    (hout : id ∉ s.accepted) : s.peerRequestIDSeen = true ∧ id < s.peerRequestIDMax := by
  rw [Role.peerParity_iff] at hid
  unfold low at hlow
  split at hlow
  · next hseen =>
    have hmax := h.seen hseen
    have hparity := (h.accepted _ hmax).1
    rw [Role.peerParity_iff] at hparity
    have hne : id.toNat ≠ s.peerRequestIDMax.toNat := fun heq =>
      hout (UInt64.toNat_inj.mp heq ▸ hmax)
    exact ⟨hseen, lt_iff_toNat_lt.mpr (by omega)⟩
  · omega

def Crowded (s : PeerRequestIDs) (id : UInt64) : Prop :=
  maxTrackedRequestIDGaps ≤ (s.peerRequestIDGaps.filter (id < ·)).length

theorem Recorded.stays_or_crowded (h : s.Recorded rid n kept) (hok : s.Ok)
    (hid : id ∈ s.peerRequestIDGaps ∨
      s.role.PeerParity id ∧ s.low ≤ id.toNat ∧ id.toNat < rid.toNat) : id ∈ insertGaps n rid kept ∨
      maxTrackedRequestIDGaps ≤ ((insertGaps n rid kept).filter (id < ·)).length := by
  have hfits := h.fits
  -- all of the record is larger than `id`, and it is full
  have hcrowded : kept.length + n = maxTrackedRequestIDGaps →
      (∀ g ∈ insertGaps n rid kept, id < g) →
      maxTrackedRequestIDGaps ≤ ((insertGaps n rid kept).filter (id < ·)).length := by
    intro hfull hlt
    rw [filter_eq_self.mpr fun g hg => decide_eq_true (hlt g hg), h.length_gaps hok]
    exact Nat.le_of_eq hfull.symm
  rw [h.mem_gaps]
  rcases hid with hold | ⟨hp, hge, hlt⟩
  · rcases h.old id hold with hk | ⟨hfull, hbelow⟩
    · exact .inl (.inl hk)
    · refine .inr (hcrowded hfull fun g hg => ?_)
      rcases (h.mem_gaps g).mp hg with hg | ⟨k, hk, hkn, heq⟩
      · exact hbelow g hg
      · have hlt := (hok.gaps id hold).2.1
        rw [lt_iff_toNat_lt]
        omega
  · rcases h.new id hp hge hlt with hk | ⟨hn, hbelow⟩
    · exact .inl (.inr hk)
    · have hbounded := h.bounded
      have hkept : kept = [] := eq_nil_of_length_eq_zero (by omega)
      refine .inr (hcrowded (by rw [hkept, length_nil]; omega) fun g hg => ?_)
      rcases (h.mem_gaps g).mp hg with hg | ⟨k, hk, hkn, heq⟩
      · rw [hkept] at hg
        cases hg
      · rw [lt_iff_toNat_lt]
        omega

theorem calls_concat (role : Role) (rids : List UInt64) (rid : UInt64) :
    calls role (rids ++ [rid]) = ((calls role rids).checkPeerRequestID rid).1 := by
  rw [calls, foldl_concat, calls]

theorem ok_calls (role : Role) (rids : List UInt64) :
    (calls role rids).Ok ∧ (calls role rids).role = role := by
  induction rids using List.reverseRecOn with
  | nil =>
    exact ⟨⟨nofun, nofun, nofun, nodup_nil, nodup_nil, Nat.zero_le _⟩, rfl⟩
  | append_singleton rids rid ih =>
    rw [calls_concat]
    refine ⟨ih.1.check rid, ?_⟩
    have hc := ih.1.checked rid
    generalize ((calls role rids).checkPeerRequestID rid).1 = s',
      ((calls role rids).checkPeerRequestID rid).2.isNone = ok at hc ⊢
    cases hc <;> exact ih.2

/-- At some point the record was crowded with IDs larger than `id`. -/
def Lost (role : Role) (rids : List UInt64) (id : UInt64) : Prop :=
  ∃ before, before <+: rids ∧ (calls role before).Crowded id

theorem Lost.concat {rids : List UInt64} (h : Lost role rids id) (rid : UInt64) :
    Lost role (rids ++ [rid]) id := by
  obtain ⟨before, hpre, hcr⟩ := h
  exact ⟨before, hpre.trans (prefix_append _ _), hcr⟩

/-- An ID of the peer below the mark that was not accepted is in the record or lost. -/
theorem unclaimed (role : Role) (rids : List UInt64) (hid : role.PeerParity id) :
    (calls role rids).peerRequestIDSeen = true → id < (calls role rids).peerRequestIDMax →
      id ∉ (calls role rids).accepted →
      id ∈ (calls role rids).peerRequestIDGaps ∨ Lost role rids id := by
  induction rids using List.reverseRecOn with
  | nil => exact fun hseen => by cases hseen
  | append_singleton rids rid ih =>
    have hlater hseen hlt hout := (ih hseen hlt hout).imp_right (Lost.concat · rid)
    have hself : (calls role (rids ++ [rid])).Crowded id → Lost role (rids ++ [rid]) id :=
      fun hcr => ⟨_, prefix_refl _, hcr⟩
    obtain ⟨hok, hrole⟩ := ok_calls role rids
    have hc := hok.checked rid
    rw [← calls_concat] at hc
    generalize calls role (rids ++ [rid]) = s',
      ((calls role rids).checkPeerRequestID rid).2.isNone = ok at hc hself ⊢
    cases hc with
    | parity => exact hlater
    | duplicate => exact hlater
    | late _ hseen hin =>
      intro _ hlt hout
      rw [mem_append, not_or, mem_singleton] at hout
      refine (hlater hseen hlt hout.1).imp_left fun hin' => ?_
      exact hok.gapsNodup.mem_erase_iff.mpr ⟨hout.2, hin'⟩
    | above hp habove hrec =>
      intro _ hlt hout
      rw [mem_append, not_or, mem_singleton] at hout
      by_cases hlow : (calls role rids).low ≤ id.toNat
      · exact (hrec.stays_or_crowded hok
          (.inr ⟨hrole.symm ▸ hid, hlow, lt_iff_toNat_lt.mp hlt⟩)).imp_right hself
      · obtain ⟨hseen, hbelow⟩ := hok.lt_max (hrole.symm ▸ hid) (Nat.not_le.mp hlow) hout.1
        rcases hlater hseen hbelow hout.1 with hin | hlost
        · exact (hrec.stays_or_crowded hok (.inl hin)).imp_right hself
        · exact .inr hlost

theorem Ok.refused (h : s.Ok) (hid : s.role.PeerParity id)
    (hrefused : (s.checkPeerRequestID id).2 ≠ none) :
    s.peerRequestIDSeen = true ∧ id ≤ s.peerRequestIDMax ∧ id ∉ s.peerRequestIDGaps := by
  have hc := h.checked id
  have hno : (s.checkPeerRequestID id).2.isNone = false := by
    rw [← Bool.not_eq_true, Option.isNone_iff_eq_none]
    exact hrefused
  rw [hno] at hc
  generalize (s.checkPeerRequestID id).1 = s' at hc
  cases hc with
  | parity hbad => exact absurd hid hbad
  | duplicate _ hseen hle hout => exact ⟨hseen, hle, hout⟩

theorem refused_crowded {rids : List UInt64} (hid : role.PeerParity id)
    (hout : id ∉ (calls role rids).accepted)
    (hrefused : ((calls role rids).checkPeerRequestID id).2 ≠ none) :
    id < (calls role rids).peerRequestIDMax ∧ Lost role rids id := by
  obtain ⟨hok, hrole⟩ := ok_calls role rids
  obtain ⟨hseen, hle, hgap⟩ := hok.refused (hrole.symm ▸ hid) hrefused
  have hne : id ≠ (calls role rids).peerRequestIDMax := fun heq => hout (heq ▸ hok.seen hseen)
  have hlt := UInt64.lt_of_le_of_ne hle hne
  exact ⟨hlt, (unclaimed role rids hid hseen hlt hout).resolve_left hgap⟩

/-- The IDs of the peer that lie below one it has sent and have not arrived. -/
def outstanding (role : Role) (sent : List UInt64) : Set UInt64 :=
  { id | role.PeerParity id ∧ (∃ m ∈ sent, id < m) ∧ id ∉ sent }

theorem Crowded.outstanding {sent : List UInt64} (h : (calls role sent).Crowded id)
    (hall : (calls role sent).accepted = sent) :
    maxTrackedRequestIDGaps ≤ (outstanding role sent).encard := by
  obtain ⟨hok, hrole⟩ := ok_calls role sent
  have hsub : ((calls role sent).peerRequestIDGaps.toFinset : Set UInt64) ⊆
      PeerRequestIDs.outstanding role sent := by
    intro g hg
    rw [Finset.mem_coe, mem_toFinset] at hg
    obtain ⟨hp, hlow, hout⟩ := hok.gaps g hg
    obtain ⟨hseen, hlt⟩ := hok.lt_max hp hlow hout
    have hmark := hok.seen hseen
    rw [hall] at hmark hout
    exact ⟨hrole ▸ hp, ⟨_, hmark, hlt⟩, hout⟩
  have hlength : maxTrackedRequestIDGaps ≤ (calls role sent).peerRequestIDGaps.length :=
    h.trans (length_filter_le _ _)
  calc (maxTrackedRequestIDGaps : ENat)
    _ ≤ (calls role sent).peerRequestIDGaps.length := by exact_mod_cast hlength
    _ = ((calls role sent).peerRequestIDGaps.toFinset : Set UInt64).encard := by
      rw [Set.encard_coe_eq_coe_finsetCard, toFinset_card_of_nodup hok.gapsNodup]
    _ ≤ (PeerRequestIDs.outstanding role sent).encard := Set.encard_le_encard hsub

theorem Ok.accepted_check (h : s.Ok) (rid : UInt64) : (s.checkPeerRequestID rid).1.accepted =
    s.accepted ++ if (s.checkPeerRequestID rid).2 = none then [rid] else [] := by
  have hc := h.checked rid
  simp only [← Option.isNone_iff_eq_none]
  generalize (s.checkPeerRequestID rid).1 = s', (s.checkPeerRequestID rid).2.isNone = ok at hc ⊢
  cases hc <;> simp

theorem accepted_of_few {rids : List UInt64} (hnodup : rids.Nodup)
    (hparity : ∀ id ∈ rids, role.PeerParity id)
    (hfew : ∀ sent, sent <+: rids → (outstanding role sent).encard < maxTrackedRequestIDGaps) :
    ∀ sent, sent <+: rids → (calls role sent).accepted = sent := by
  induction rids using List.reverseRecOn with
  | nil =>
    intro sent hsent
    rw [prefix_nil.mp hsent]
    rfl
  | append_singleton rids rid ih =>
    obtain ⟨hnodup, -, hnew⟩ := nodup_append.mp hnodup
    have ih := ih hnodup (fun id hid => hparity id (mem_append_left _ hid))
      fun sent hsent => hfew sent (hsent.trans (prefix_append _ _))
    intro sent hsent
    rcases prefix_concat_iff.mp hsent with rfl | hsent
    · have hall := ih rids (prefix_refl _)
      have hout : rid ∉ (calls role rids).accepted := by
        rw [hall]
        exact fun hin => hnew rid hin rid (mem_singleton.mpr rfl) rfl
      have hyes : ((calls role rids).checkPeerRequestID rid).2 = none := by
        by_contra hno
        have hrid := hparity rid (mem_append_right _ (mem_singleton.mpr rfl))
        obtain ⟨-, before, hbefore, hcrowded⟩ := refused_crowded hrid hout hno
        have hmany := hcrowded.outstanding (ih before hbefore)
        exact absurd (hfew before (hbefore.trans (prefix_append _ _))) (not_lt.mpr hmany)
      rw [calls_concat, (ok_calls role rids).1.accepted_check, if_pos hyes, hall]
    · exact ih sent hsent

/-- **Request IDs are consumed once.** After any calls on a session of either role:
    * the IDs accepted are those for which `CheckPeerRequestID` returned no error;
    * no ID was accepted twice, none of the wrong parity, and at most 1024 gaps are tracked;
    * an ID of the right parity that was never accepted is refused only below the mark, and only
      if at some point 1024 gaps, all of them larger IDs of the peer below the mark of that moment
      and unclaimed, were in the record;
    * if the IDs called with are distinct and of the right parity, and fewer than 1024 were ever
      outstanding below the highest, all were accepted. -/
theorem request_ids_consumed_once (role : Role) (rids : List UInt64) :
    (∀ id, (calls role (rids ++ [id])).accepted = (calls role rids).accepted ++
      if ((calls role rids).checkPeerRequestID id).2 = none then [id] else []) ∧
    (calls role rids).accepted.Nodup ∧
    (∀ id ∈ (calls role rids).accepted, role.PeerParity id) ∧
    (calls role rids).peerRequestIDGaps.length ≤ maxTrackedRequestIDGaps ∧
    (∀ id, role.PeerParity id → id ∉ (calls role rids).accepted →
      ((calls role rids).checkPeerRequestID id).2 ≠ none →
      id < (calls role rids).peerRequestIDMax ∧ ∃ before, before <+: rids ∧
        ∃ larger : List UInt64, larger.Nodup ∧ maxTrackedRequestIDGaps ≤ larger.length ∧
          ∀ g ∈ larger, id < g ∧ g ∈ (calls role before).peerRequestIDGaps ∧ role.PeerParity g ∧
            g < (calls role before).peerRequestIDMax ∧ g ∉ (calls role before).accepted) ∧
    (rids.Nodup → (∀ id ∈ rids, role.PeerParity id) →
      (∀ sent, sent <+: rids → (outstanding role sent).encard < maxTrackedRequestIDGaps) →
      (calls role rids).accepted = rids) := by
  obtain ⟨hok, hrole⟩ := ok_calls role rids
  refine ⟨fun id => calls_concat role rids id ▸ hok.accepted_check id, hok.acceptedNodup,
    fun id hid => hrole ▸ (hok.accepted id hid).1, hok.bounded, fun id hid hout hrefused => ?_,
    fun hnodup hparity hfew => accepted_of_few hnodup hparity hfew rids (prefix_refl _)⟩
  obtain ⟨hlt, before, hbefore, hcrowded⟩ := refused_crowded hid hout hrefused
  obtain ⟨hok', hrole'⟩ := ok_calls role before
  refine ⟨hlt, before, hbefore, _, hok'.gapsNodup.filter _, hcrowded, fun g hg => ?_⟩
  rw [mem_filter, decide_eq_true_eq] at hg
  obtain ⟨hp, hlow, hunclaimed⟩ := hok'.gaps g hg.1
  exact ⟨hg.2, hg.1, hrole' ▸ hp, (hok'.lt_max hp hlow hunclaimed).2, hunclaimed⟩

example : (calls .server [0, 6, 2, 2, 3, 4]).accepted = [0, 6, 2, 4] := by decide

end PeerRequestIDs
end MoqGo.Session
