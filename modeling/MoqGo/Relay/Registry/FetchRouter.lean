import MoqGo.Lib.Runs
import MoqGo.Relay.Cache

/-!
# The FETCH router (`pkg/relay/internal/registry/fetch_router.go`)

The response of an upstream FETCH arrives on the upstream session's data loop, which calls
`Deliver`; the downstream handler that issued the FETCH calls `Register` and waits. Whoever comes
first makes the rendezvous channel, which holds one stream. `Register`'s cleanup and, where
`Deliver` made the channel, a grace timer take the channel out of `pending` and cancel a stream
left in it.

**The lock covers the map only.** `Deliver` looks the channel up under it and sends after it is
released, so the channel may have been retired in between. Here each goroutine is a `Party`, named
by what it does next, and the parties' lock-atomic steps and channel operations interleave freely.

The fields `accepted`, `received` and `cancelled` are written and never read: the streams `Deliver`
returned true for, those a reader took, and those a cleanup or a timer cancelled.
-/

namespace MoqGo.Relay

open Lib List AList
open Function (update update_of_ne update_self)

/-- `fetchKey`. -/
structure FetchKey where
  sess : Nat
  reqID : UInt64
deriving DecidableEq, Repr

namespace FetchRouter

abbrev ChanID := Nat

/-- A `*session.IncomingFetchStream`. -/
abbrev StreamID := Nat

/-- A goroutine, by its next step. -/
inductive Party
  /-- `Deliver` after its lookup; `created` is what `chanLocked` reported. -/
  | sending (key : FetchKey) (ch : ChanID) (created : Bool) (stream : StreamID)
  /-- `Deliver` after its send, before `time.AfterFunc`. -/
  | scheduling (key : FetchKey) (ch : ChanID) (stream : StreamID)
  /-- The grace timer. -/
  | timer (key : FetchKey) (ch : ChanID)
  /-- `Register`'s caller, waiting on the channel. -/
  | reading (key : FetchKey) (ch : ChanID)
  /-- `Register`'s caller with its stream, before its cleanup. -/
  | leaving (key : FetchKey) (ch : ChanID)
  /-- A cleanup or a timer after its locked part, before its receive. -/
  | draining (ch : ChanID)
deriving DecidableEq, Repr

namespace Party

def ch : Party → ChanID
  | sending _ ch _ _ | scheduling _ ch _ | timer _ ch | reading _ ch | leaving _ ch => ch
  | draining ch => ch

/-- The key under which the channel was found; a party past its locked part needs it no more. -/
def key? : Party → Option FetchKey
  | sending key _ _ _ | scheduling key _ _ | timer key _ | reading key _ | leaving key _ => some key
  | draining _ => none

/-- The party will receive from `ch` whatever the map holds then. A timer that has not fired is
    not one: it looks only if it finds `ch` in the map. -/
def looksAt (ch : ChanID) : Party → Bool
  | reading _ ch' | leaving _ ch' | draining ch' => ch' = ch
  | _ => false

/-- The stream of a `Deliver` whose send went through and that has not returned. -/
def sent? : Party → Option StreamID
  | scheduling _ _ stream => some stream
  | _ => none

/-- The party is a `Deliver` that will send on `ch`. -/
def sendsOn (ch : ChanID) : Party → Bool
  | sending _ ch' _ _ => ch' = ch
  | _ => false

end Party

end FetchRouter

open FetchRouter in
/-- `FetchRouter` with the channels, and the goroutines that have steps ahead. -/
structure FetchRouter where
  pending : GoMap FetchKey ChanID := ∅
  /-- The stream in a channel's buffer of one. -/
  parked : ChanID → Option StreamID := fun _ => none
  /-- How many channels were made. -/
  made : Nat := 0
  parties : List Party := []
  accepted : List StreamID := []
  received : List StreamID := []
  cancelled : List StreamID := []

namespace FetchRouter

/-- `chanLocked`. -/
def chanLocked (r : FetchRouter) (key : FetchKey) : FetchRouter × ChanID × Bool :=
  match r.pending.lookup key with
  | some ch => (r, ch, false)
  | none =>
    ({ r with pending := r.pending.insert key r.made, made := r.made + 1 }, r.made, true)

/-- The party goes on with `p`. -/
def spawn (r : FetchRouter) (p : Party) : FetchRouter :=
  { r with parties := p :: r.parties }

def off (r : FetchRouter) (p : Party) : FetchRouter :=
  { r with parties := r.parties.erase p }

/-- `Register`, up to its return. -/
def register (r : FetchRouter) (key : FetchKey) : FetchRouter :=
  let (r, ch, _) := r.chanLocked key
  r.spawn (.reading key ch)

/-- `Deliver`'s lookup. -/
def deliver (r : FetchRouter) (key : FetchKey) (stream : StreamID) : FetchRouter :=
  let (r, ch, created) := r.chanLocked key
  r.spawn (.sending key ch created stream)

/-- `Deliver`'s send. With a stream parked already it returns false. -/
def send (r : FetchRouter) (key : FetchKey) (ch : ChanID) (created : Bool) (stream : StreamID) :
    FetchRouter :=
  match r.parked ch with
  | some _ => r
  | none =>
    let r := { r with parked := update r.parked ch (some stream) }
    if created then r.spawn (.scheduling key ch stream)
    else { r with accepted := stream :: r.accepted }

/-- `Deliver`'s `time.AfterFunc`. -/
def schedule (r : FetchRouter) (key : FetchKey) (ch : ChanID) (stream : StreamID) : FetchRouter :=
  { r.spawn (.timer key ch) with accepted := stream :: r.accepted }

/-- The timer's locked part. -/
def fire (r : FetchRouter) (key : FetchKey) (ch : ChanID) : FetchRouter :=
  if r.pending.lookup key = some ch then
    { r with pending := r.pending.erase key }.spawn (.draining ch)
  else r

def cleanup (r : FetchRouter) (key : FetchKey) (ch : ChanID) : FetchRouter :=
  let pending := if r.pending.lookup key = some ch then r.pending.erase key else r.pending
  { r with pending := pending }.spawn (.draining ch)

/-- The receive at the end of a cleanup and of a timer. -/
def drain (r : FetchRouter) (ch : ChanID) : FetchRouter :=
  match r.parked ch with
  | some stream =>
    { r with parked := update r.parked ch none, cancelled := stream :: r.cancelled }
  | none => r

/-- The next step of a party, which is no longer in `parties`. -/
def go (r : FetchRouter) : Party → FetchRouter
  | .sending key ch created stream => r.send key ch created stream
  | .scheduling key ch stream => r.schedule key ch stream
  | .timer key ch => r.fire key ch
  | .reading key ch | .leaving key ch => r.cleanup key ch
  | .draining ch => r.drain ch

inductive Act
  | register (key : FetchKey)
  | deliver (key : FetchKey) (stream : StreamID)
  /-- A waiting reader gets its stream. -/
  | receive (key : FetchKey) (ch : ChanID)
  /-- The party's next step; for a waiting reader, its cleanup, as it gives up. -/
  | go (p : Party)
deriving DecidableEq, Repr

def step (r : FetchRouter) : Act → Option FetchRouter
  | .register key => some (r.register key)
  | .deliver key stream => some (r.deliver key stream)
  | .receive key ch =>
    match r.parked ch with
    | none => none
    | some stream =>
      if Party.reading key ch ∈ r.parties then
        some
          { r with
            parked := update r.parked ch none
            received := stream :: r.received
            parties := .leaving key ch :: r.parties.erase (.reading key ch) }
      else none
  | .go p =>
    if p ∈ r.parties then some ((r.off p).go p) else none

/-- `NewFetchRouter`. -/
def init : FetchRouter := {}

/-- Somebody will look into `ch`: it is in the map, where the next `Register`, cleanup or timer of
    its key finds it, or a party will receive from it anyway. -/
def Watched (r : FetchRouter) (ch : ChanID) : Prop :=
  (∃ key, r.pending.lookup key = some ch) ∨ ∃ p ∈ r.parties, p.looksAt ch = true

/-! ## What the map and the parties agree on -/

/-- A channel is in the map under one key, the one its parties have, and not at all once it was
    retired. -/
structure Keyed (r : FetchRouter) : Prop where
  made : ∀ key ch, r.pending.lookup key = some ch → ch < r.made
  unique : ∀ key key' ch, r.pending.lookup key = some ch → r.pending.lookup key' = some ch →
    key = key'
  party : ∀ p ∈ r.parties, p.ch < r.made ∧ ∀ key, r.pending.lookup key = some p.ch →
    p.key? = some key

theorem keyed_init : init.Keyed where
  made key ch h := by simp [init] at h
  unique key _ ch h := by simp [init] at h
  party p h := by simp [init] at h

variable {r r' : FetchRouter} {p : Party} {key : FetchKey} {ch : ChanID} {a : Act}
  {stream : StreamID}

/-- The map loses entries at most, and each party has the channel of one there was, under the same
    key or retired. -/
theorem Keyed.shrink (h : r.Keyed) (hmade : r'.made = r.made)
    (hpending : ∀ key ch, r'.pending.lookup key = some ch → r.pending.lookup key = some ch)
    (hparty : ∀ q ∈ r'.parties, ∃ p ∈ r.parties, q.ch = p.ch ∧
      (q.key? = p.key? ∨ ∀ key, r'.pending.lookup key ≠ some q.ch)) : r'.Keyed where
  made key ch hl := by
    rw [hmade]
    exact h.made key ch (hpending key ch hl)
  unique key key' ch hl hl' :=
    h.unique key key' ch (hpending key ch hl) (hpending key' ch hl')
  party q hq := by
    obtain ⟨p, hp, hch, hkey⟩ := hparty q hq
    obtain ⟨hlt, hfound⟩ := h.party p hp
    rw [hmade, hch]
    refine ⟨hlt, fun key hl => ?_⟩
    rcases hkey with hkey | hgone
    · rw [hkey]
      exact hfound key (hpending key p.ch hl)
    · exact absurd (hch ▸ hl) (hgone key)

theorem Keyed.same (h : r.Keyed) (hp : p ∈ r.parties) (hmade : r'.made = r.made)
    (hpending : r'.pending = r.pending)
    (hparty : ∀ q ∈ r'.parties, q ∈ r.parties ∨ q.ch = p.ch ∧ q.key? = p.key?) : r'.Keyed := by
  refine h.shrink hmade (fun _ _ hl => hpending ▸ hl) fun q hq => ?_
  rcases hparty q hq with hq | ⟨hch, hkey⟩
  · exact ⟨q, hq, rfl, .inl rfl⟩
  · exact ⟨p, hp, hch, .inl hkey⟩

theorem lookup_chanLocked (r : FetchRouter) (key : FetchKey) :
    (r.chanLocked key).1.pending.lookup key = some (r.chanLocked key).2.1 := by
  unfold chanLocked
  split
  · assumption
  · exact lookup_insert _

theorem chanLocked_frame (r : FetchRouter) (key : FetchKey) :
    ∃ pending made, (r.chanLocked key).1 = { r with pending := pending, made := made } ∧
      ∀ k ch, r.pending.lookup k = some ch → pending.lookup k = some ch := by
  unfold chanLocked
  split
  · exact ⟨r.pending, r.made, rfl, fun _ _ hl => hl⟩
  · next hnone =>
    refine ⟨r.pending.insert key r.made, r.made + 1, rfl, fun k ch hl => ?_⟩
    have hk : k ≠ key := by
      intro hk
      rw [hk, hnone] at hl
      cases hl
    rw [lookup_insert_ne hk]
    exact hl

theorem Keyed.chanLocked (h : r.Keyed) (key : FetchKey) : (r.chanLocked key).1.Keyed := by
  unfold FetchRouter.chanLocked
  split
  · exact h
  · next hnone =>
    have hold : ∀ {k ch}, (r.pending.insert key r.made).lookup k = some ch →
        k = key ∧ ch = r.made ∨ k ≠ key ∧ r.pending.lookup k = some ch := by
      intro k ch hl
      by_cases hk : k = key
      · subst hk
        rw [lookup_insert] at hl
        exact .inl ⟨rfl, (Option.some.inj hl).symm⟩
      · rw [lookup_insert_ne hk] at hl
        exact .inr ⟨hk, hl⟩
    refine ⟨fun k ch hl => ?_, fun k k' ch hl hl' => ?_, fun p hp => ?_⟩
    · rcases hold hl with ⟨-, rfl⟩ | ⟨-, hl⟩
      · exact Nat.lt_succ_self _
      · exact Nat.lt_succ_of_lt (h.made k ch hl)
    · rcases hold hl with ⟨hk, hch⟩ | ⟨-, hold₁⟩ <;> rcases hold hl' with ⟨hk', hch'⟩ | ⟨-, hold₂⟩
      · exact hk.trans hk'.symm
      · exact absurd (h.made k' ch hold₂) (hch ▸ Nat.lt_irrefl _)
      · exact absurd (h.made k ch hold₁) (hch' ▸ Nat.lt_irrefl _)
      · exact h.unique k k' ch hold₁ hold₂
    · obtain ⟨hlt, hkey⟩ := h.party p hp
      refine ⟨Nat.lt_succ_of_lt hlt, fun k hl => ?_⟩
      rcases hold hl with ⟨-, hch⟩ | ⟨-, hold⟩
      · exact absurd hlt (hch ▸ Nat.lt_irrefl _)
      · exact hkey k hold

theorem Keyed.spawn_found (h : r.Keyed) (hkey : p.key? = some key)
    (hfound : r.pending.lookup key = some p.ch) : (r.spawn p).Keyed where
  made := h.made
  unique := h.unique
  party q hq := by
    rcases mem_cons.mp hq with rfl | hq
    · refine ⟨h.made key _ hfound, fun key' hl => ?_⟩
      rw [hkey, h.unique key key' _ hfound hl]
    · exact h.party q hq

theorem fire_of_found (h : r.pending.lookup key = some ch) : r.fire key ch = r.cleanup key ch := by
  simp only [fire, cleanup, h, if_true]

theorem Keyed.retire (h : r.Keyed) (hp : p ∈ r.parties) (hkey : p.key? = some key) :
    ((r.off p).cleanup key p.ch).Keyed := by
  obtain ⟨-, hfound⟩ := h.party p hp
  have hfound' : ∀ k, r.pending.lookup k = some p.ch → k = key := fun k hl =>
    (Option.some.inj (hkey.symm.trans (hfound k hl))).symm
  have hsub : ∀ k ch, AList.lookup k (if r.pending.lookup key = some p.ch then r.pending.erase key
      else r.pending) = some ch → r.pending.lookup k = some ch ∧ ch ≠ p.ch := by
    intro k ch hl
    split at hl
    · by_cases hk : k = key
      · rw [hk, lookup_erase] at hl
        cases hl
      · rw [lookup_erase_ne hk] at hl
        refine ⟨hl, ?_⟩
        intro hch
        exact hk (hfound' k (hch ▸ hl))
    · next hne =>
      refine ⟨hl, ?_⟩
      intro hch
      have hk := hfound' k (hch ▸ hl)
      exact hne (hk ▸ hch ▸ hl)
  refine h.shrink rfl (fun k ch hl => (hsub k ch hl).1) fun q hq => ?_
  rcases mem_cons.mp hq with rfl | hq
  · exact ⟨p, hp, rfl, .inr fun k hl => (hsub k _ hl).2 rfl⟩
  · exact ⟨q, mem_of_mem_erase hq, rfl, .inl rfl⟩

theorem mem_off {q : Party} (h : q ∈ (r.off p).parties) : q ∈ r.parties :=
  mem_of_mem_erase h

theorem Keyed.step (h : r.Keyed) (hs : r.step a = some r') : r'.Keyed := by
  cases a with
  | register key | deliver key _ =>
    cases hs
    exact (h.chanLocked key).spawn_found rfl (r.lookup_chanLocked key)
  | receive key ch =>
    simp only [FetchRouter.step] at hs
    split at hs
    · cases hs
    · simp only [guard_iff] at hs
      obtain ⟨hin, rfl⟩ := hs
      exact h.same hin rfl rfl
        (forall_mem_cons.mpr ⟨.inr ⟨rfl, rfl⟩, fun q hq => .inl (mem_off hq)⟩)
  | go p =>
    obtain ⟨hin, rfl⟩ := guard_iff.mp hs
    have hoff : ∀ q ∈ (r.off p).parties, q ∈ r.parties ∨ q.ch = p.ch ∧ q.key? = p.key? :=
      fun q hq => .inl (mem_off hq)
    cases p with
    | sending key ch created stream =>
      simp only [FetchRouter.go, send]
      split
      · exact h.same hin rfl rfl hoff
      · split
        · exact h.same hin rfl rfl (forall_mem_cons.mpr ⟨.inr ⟨rfl, rfl⟩, hoff⟩)
        · exact h.same hin rfl rfl hoff
    | scheduling key ch stream =>
      exact h.same hin rfl rfl (forall_mem_cons.mpr ⟨.inr ⟨rfl, rfl⟩, hoff⟩)
    | timer key ch =>
      by_cases hfound : (r.off (.timer key ch)).pending.lookup key = some ch
      · show (FetchRouter.fire _ key ch).Keyed
        rw [fire_of_found hfound]
        exact h.retire hin rfl
      · simp only [FetchRouter.go, fire, if_neg hfound]
        exact h.same hin rfl rfl hoff
    | reading key ch | leaving key ch => exact h.retire hin rfl
    | draining ch =>
      simp only [FetchRouter.go, drain]
      split
      · exact h.same hin rfl rfl hoff
      · exact h.same hin rfl rfl hoff

/-! ## Every accepted stream is somewhere -/

def Kept (r : FetchRouter) (stream : StreamID) : Prop :=
  stream ∈ r.received ∨ stream ∈ r.cancelled ∨ ∃ ch, r.parked ch = some stream

/-- A `Deliver` whose send went through keeps its stream even before it returns. -/
structure Accounted (r : FetchRouter) : Prop where
  accepted : ∀ stream ∈ r.accepted, r.Kept stream
  sent : ∀ p ∈ r.parties, ∀ stream, p.sent? = some stream → r.Kept stream

theorem accounted_init : init.Accounted where
  accepted stream h := by simp [init] at h
  sent p h := by simp [init] at h

theorem Kept.taken (h : r.Kept stream) (hreceived : r.received ⊆ r'.received)
    (hcancelled : r.cancelled ⊆ r'.cancelled)
    (hparked : ∀ ch st, r.parked ch = some st → r'.parked ch = some st ∨ st ∈ r'.received ∨
      st ∈ r'.cancelled) : r'.Kept stream := by
  rcases h with h | h | ⟨ch, h⟩
  · exact .inl (hreceived h)
  · exact .inr (.inl (hcancelled h))
  · rcases hparked ch stream h with h | h | h
    · exact .inr (.inr ⟨ch, h⟩)
    · exact .inl h
    · exact .inr (.inl h)

theorem Accounted.mono (h : r.Accounted) (hkept : ∀ stream, r.Kept stream → r'.Kept stream)
    (haccepted : r'.accepted = r.accepted)
    (hparties : ∀ q ∈ r'.parties, q ∈ r.parties ∨ q.sent? = none) : r'.Accounted where
  accepted stream hin := hkept stream (h.accepted stream (haccepted ▸ hin))
  sent q hq stream hsent := by
    rcases hparties q hq with hq | hnone
    · exact hkept stream (h.sent q hq stream hsent)
    · rw [hnone] at hsent
      cases hsent

theorem Accounted.found (h : r.Accounted) (key : FetchKey) (hp : p.sent? = none) :
    ((r.chanLocked key).1.spawn p).Accounted := by
  obtain ⟨pending, made, heq, -⟩ := r.chanLocked_frame key
  rw [heq]
  exact h.mono (fun _ hkept => hkept) rfl (forall_mem_cons.mpr ⟨.inr hp, fun q hq => .inl hq⟩)

theorem taken_update {received cancelled : List StreamID} (hparked : r.parked ch = some stream)
    (hin : stream ∈ received ∨ stream ∈ cancelled) : ∀ c st, r.parked c = some st →
      update r.parked ch none c = some st ∨ st ∈ received ∨ st ∈ cancelled := by
  intro c st hst
  by_cases hc : c = ch
  · rw [hc, hparked] at hst
    cases hst
    exact .inr hin
  · exact .inl ((update_of_ne hc _ _).trans hst)

theorem Kept.parked {st : StreamID} (hempty : r.parked ch = none) (h : r.Kept st) :
    Kept { r with parked := update r.parked ch (some stream) } st := by
  refine h.taken (List.Subset.refl _) (List.Subset.refl _) fun c st' hst => .inl ?_
  have hc : c ≠ ch := by
    intro hc
    rw [hc, hempty] at hst
    cases hst
  exact (update_of_ne hc _ _).trans hst

theorem Accounted.step (h : r.Accounted) (hs : r.step a = some r') : r'.Accounted := by
  cases a with
  | register key | deliver key _ =>
    cases hs
    exact h.found key rfl
  | receive key ch =>
    simp only [FetchRouter.step] at hs
    split at hs
    · cases hs
    · next stream hparked =>
      simp only [guard_iff] at hs
      obtain ⟨-, rfl⟩ := hs
      exact h.mono (fun _ hkept => hkept.taken (subset_cons_self _ _) (List.Subset.refl _)
        (taken_update hparked (.inl mem_cons_self))) rfl
        (forall_mem_cons.mpr ⟨.inr rfl, fun q hq => .inl (mem_off hq)⟩)
  | go p =>
    obtain ⟨hin, rfl⟩ := guard_iff.mp hs
    have hoff : ∀ q ∈ (r.off p).parties, q ∈ r.parties ∨ q.sent? = none :=
      fun q hq => .inl (mem_off hq)
    have hcleanup : ∀ key ch, ((r.off p).cleanup key ch).Accounted := fun key ch =>
      h.mono (fun _ hkept => hkept) rfl (forall_mem_cons.mpr ⟨.inr rfl, hoff⟩)
    cases p with
    | sending key ch created stream =>
      simp only [FetchRouter.go, send]
      split
      · exact h.mono (fun _ hkept => hkept) rfl hoff
      · next hempty =>
        have hkept : ∀ st, r.Kept st → Kept
            { r.off (.sending key ch created stream) with
              parked := update r.parked ch (some stream) } st :=
          fun st hkept => hkept.parked hempty
        have hself : Kept
            { r.off (.sending key ch created stream) with
              parked := update r.parked ch (some stream) } stream :=
          .inr (.inr ⟨ch, update_self _ _ _⟩)
        split
        · refine ⟨fun st hst => hkept st (h.accepted st hst), fun q hq st hst => ?_⟩
          rcases mem_cons.mp hq with rfl | hq
          · cases hst
            exact hself
          · exact hkept st (h.sent q (mem_off hq) st hst)
        · refine ⟨fun st hst => ?_, fun q hq st hst =>
            hkept st (h.sent q (mem_off hq) st hst)⟩
          rcases mem_cons.mp hst with rfl | hst
          · exact hself
          · exact hkept st (h.accepted st hst)
    | scheduling key ch stream =>
      refine ⟨fun st hst => ?_, fun q hq st hst => ?_⟩
      · rcases mem_cons.mp hst with rfl | hst
        · exact h.sent _ hin _ rfl
        · exact h.accepted st hst
      · rcases mem_cons.mp hq with rfl | hq
        · cases hst
        · exact h.sent q (mem_off hq) st hst
    | timer key ch =>
      by_cases hfound : (r.off (.timer key ch)).pending.lookup key = some ch
      · show (FetchRouter.fire _ key ch).Accounted
        rw [fire_of_found hfound]
        exact hcleanup key ch
      · simp only [FetchRouter.go, fire, if_neg hfound]
        exact h.mono (fun _ hkept => hkept) rfl hoff
    | reading key ch | leaving key ch => exact hcleanup key ch
    | draining ch =>
      simp only [FetchRouter.go, drain]
      split
      · next stream hparked =>
        exact h.mono (fun _ hkept => hkept.taken (List.Subset.refl _) (subset_cons_self _ _)
          (taken_update hparked (.inr mem_cons_self))) rfl hoff
      · exact h.mono (fun _ hkept => hkept) rfl hoff

/-! ## No channel is abandoned -/

theorem Party.ch_of_looksAt (h : p.looksAt ch = true) : p.ch = ch := by
  cases p <;> simp_all [Party.looksAt, Party.ch]

theorem Watched.cleanup {c : ChanID} (h : r.Watched c) (key : FetchKey) :
    ((r.off p).cleanup key p.ch).Watched c := by
  by_cases hc : c = p.ch
  · exact .inr ⟨.draining p.ch, mem_cons_self, by simp [Party.looksAt, hc]⟩
  · rcases h with ⟨key', hl⟩ | ⟨q, hq, hlooks⟩
    · refine .inl ⟨key', ?_⟩
      simp only [FetchRouter.cleanup, spawn]
      split
      · next hfound =>
        have hk : key' ≠ key := by
          intro hk
          rw [hk] at hl
          exact hc (Option.some.inj (hl.symm.trans hfound))
        rw [lookup_erase_ne hk]
        exact hl
      · exact hl
    · have hne : q ≠ p := by
        intro hqp
        exact hc (hqp ▸ Party.ch_of_looksAt hlooks).symm
      exact .inr ⟨q, mem_cons_of_mem _ ((mem_erase_of_ne hne).mpr hq), hlooks⟩

theorem Watched.off {c : ChanID} (h : r.Watched c) (p : Party) (hp : p.looksAt c = false)
    (hpending : r'.pending = r.pending) (hparties : (r.off p).parties ⊆ r'.parties) :
    r'.Watched c := by
  rcases h with ⟨key, hl⟩ | ⟨q, hq, hlooks⟩
  · exact .inl ⟨key, hpending ▸ hl⟩
  · have hne : q ≠ p := by
      intro hqp
      rw [hqp, hp] at hlooks
      cases hlooks
    exact .inr ⟨q, hparties ((mem_erase_of_ne hne).mpr hq), hlooks⟩

/-- The side condition of a step: where a cleanup or a timer takes its look at a channel, either
    no `Deliver` that has found the channel has its send ahead, or another party will look. -/
def LooksLast (r : FetchRouter) : Act → Prop
  | .go (.draining ch) => r.parties.any (·.sendsOn ch) = true →
    (r.off (.draining ch)).parties.any (·.looksAt ch) = true
  | _ => True

instance (r : FetchRouter) (a : Act) : Decidable (r.LooksLast a) := by
  cases a with
  | go p => cases p <;> unfold LooksLast <;> infer_instance
  | _ => unfold LooksLast; infer_instance

/-- A channel that holds a stream, or will get one, is watched. -/
structure Served (r : FetchRouter) : Prop where
  parked : ∀ ch stream, r.parked ch = some stream → r.Watched ch
  sending : ∀ p ∈ r.parties, ∀ ch, p.sendsOn ch = true → r.Watched ch

theorem served_init : init.Served where
  parked ch stream h := by simp [init] at h
  sending p h := by simp [init] at h

theorem Served.mono (h : r.Served) (hwatched : ∀ ch, r.Watched ch → r'.Watched ch)
    (hparked : ∀ ch stream, r'.parked ch = some stream → r.parked ch = some stream)
    (hparties : ∀ q ∈ r'.parties, q ∈ r.parties ∨ ∀ ch, q.sendsOn ch = false) : r'.Served where
  parked ch stream hst := hwatched ch (h.parked ch stream (hparked ch stream hst))
  sending q hq ch hsends := by
    rcases hparties q hq with hq | hnot
    · exact hwatched ch (h.sending q hq ch hsends)
    · rw [hnot ch] at hsends
      cases hsends

theorem Served.found (h : r.Served) (key : FetchKey) (hp : p.ch = (r.chanLocked key).2.1) :
    ((r.chanLocked key).1.spawn p).Served := by
  have hlookup := r.lookup_chanLocked key
  obtain ⟨pending, made, heq, hmono⟩ := r.chanLocked_frame key
  rw [heq] at hlookup ⊢
  have hwatched : ∀ ch, r.Watched ch →
      (FetchRouter.spawn { r with pending := pending, made := made } p).Watched ch := by
    intro ch hw
    rcases hw with ⟨k, hl⟩ | ⟨q, hq, hlooks⟩
    · exact .inl ⟨k, hmono k ch hl⟩
    · exact .inr ⟨q, mem_cons_of_mem _ hq, hlooks⟩
  refine ⟨fun ch stream hst => hwatched ch (h.parked ch stream hst), fun q hq ch hsends => ?_⟩
  rcases mem_cons.mp hq with rfl | hq
  · have hch : q.ch = ch := by
      cases q <;> simp_all [Party.sendsOn, Party.ch]
    exact .inl ⟨key, hch ▸ hp ▸ hlookup⟩
  · exact hwatched ch (h.sending q hq ch hsends)

theorem drain_frame (r : FetchRouter) (ch : ChanID) :
    (r.drain ch).pending = r.pending ∧ (r.drain ch).parties = r.parties ∧
      ∀ c stream, (r.drain ch).parked c = some stream → r.parked c = some stream ∧ c ≠ ch := by
  unfold drain
  split
  · refine ⟨rfl, rfl, fun c stream hst => ?_⟩
    by_cases hc : c = ch
    · simp [hc] at hst
    · exact ⟨(update_of_ne hc _ _).symm.trans hst, hc⟩
  · next hempty =>
    refine ⟨rfl, rfl, fun c stream hst => ⟨hst, fun hc => ?_⟩⟩
    rw [hc, hempty] at hst
    cases hst

theorem send_frame (r : FetchRouter) (key : FetchKey) (ch : ChanID) (created : Bool)
    (stream : StreamID) : (r.send key ch created stream).pending = r.pending ∧
      (∀ c st, (r.send key ch created stream).parked c = some st →
        c = ch ∨ r.parked c = some st) ∧
      ∀ q ∈ (r.send key ch created stream).parties,
        q ∈ r.parties ∨ ∀ c, q.looksAt c = false ∧ q.sendsOn c = false := by
  have hparked : ∀ c st, update r.parked ch (some stream) c = some st →
      c = ch ∨ r.parked c = some st := fun c st hst =>
    (update_eq_some hst).imp And.left And.right
  unfold send
  split
  · exact ⟨rfl, fun _ _ => .inr, fun _ => .inl⟩
  · split
    · refine ⟨rfl, hparked, fun q hq => ?_⟩
      rcases mem_cons.mp hq with rfl | hq
      · exact .inr fun _ => ⟨rfl, rfl⟩
      · exact .inl hq
    · exact ⟨rfl, hparked, fun _ => .inl⟩

theorem Watched.send {c : ChanID} (h : r.Watched c) (key : FetchKey) (ch : ChanID)
    (created : Bool) (stream : StreamID) :
    ((r.off (.sending key ch created stream)).send key ch created stream).Watched c := by
  have hoff : (r.off (.sending key ch created stream)).Watched c :=
    h.off _ rfl rfl (List.Subset.refl _)
  refine hoff.imp (fun ⟨k, hl⟩ => ⟨k, ?_⟩) fun ⟨q, hq, hlooks⟩ => ⟨q, ?_, hlooks⟩
  · rw [(send_frame _ key ch created stream).1, hl]
  · unfold FetchRouter.send
    split
    · exact hq
    · split
      · exact mem_cons_of_mem _ hq
      · exact hq

theorem Served.drain (h : r.Served) (hok : r.LooksLast (.go (.draining ch))) :
    ((r.off (.draining ch)).drain ch).Served := by
  obtain ⟨hpending, hparties, hparked⟩ := (r.off (.draining ch)).drain_frame ch
  have hother : ∀ c, c ≠ ch → r.Watched c → ((r.off (.draining ch)).drain ch).Watched c := by
    intro c hc hw
    have hnot : (Party.draining ch).looksAt c = false := by
      simpa [Party.looksAt] using Ne.symm hc
    exact hw.off _ hnot hpending (hparties ▸ List.Subset.refl _)
  refine ⟨fun c stream hst => ?_, fun q hq c hsends => ?_⟩
  · obtain ⟨hst, hc⟩ := hparked c stream hst
    exact hother c hc (h.parked c stream hst)
  · rw [hparties] at hq
    by_cases hc : c = ch
    · subst hc
      obtain ⟨w, hw, hlooks⟩ :=
        any_eq_true.mp (hok (any_eq_true.mpr ⟨q, mem_off hq, hsends⟩))
      exact .inr ⟨w, hparties ▸ hw, hlooks⟩
    · exact hother c hc (h.sending q (mem_off hq) c hsends)

theorem Served.step (h : r.Served) (hok : r.LooksLast a) (hs : r.step a = some r') : r'.Served := by
  cases a with
  | register key | deliver key _ =>
    cases hs
    exact h.found key rfl
  | receive key ch =>
    simp only [FetchRouter.step] at hs
    split at hs
    · cases hs
    · simp only [guard_iff] at hs
      obtain ⟨hin, rfl⟩ := hs
      refine h.mono (fun c hw => ?_) (fun c stream hst => ?_)
        (forall_mem_cons.mpr ⟨.inr fun _ => rfl, fun q hq => .inl (mem_off hq)⟩)
      · by_cases hc : c = ch
        · exact .inr ⟨.leaving key ch, mem_cons_self, by simp [Party.looksAt, hc]⟩
        · have hnot : (Party.reading key ch).looksAt c = false := by
            simpa [Party.looksAt] using Ne.symm hc
          exact hw.off _ hnot rfl (subset_cons_self _ _)
      · by_cases hc : c = ch
        · simp [hc] at hst
        · exact (update_of_ne hc _ _).symm.trans hst
  | go p =>
    obtain ⟨hin, rfl⟩ := guard_iff.mp hs
    have hoff : ∀ q ∈ (r.off p).parties, q ∈ r.parties ∨ ∀ ch, q.sendsOn ch = false :=
      fun q hq => .inl (mem_off hq)
    have hcleanup : ∀ key, ((r.off p).cleanup key p.ch).Served := fun key =>
      h.mono (fun c hw => hw.cleanup key) (fun _ _ hst => hst)
        (forall_mem_cons.mpr ⟨.inr fun _ => rfl, hoff⟩)
    cases p with
    | sending key ch created stream =>
      obtain ⟨-, hparked, hparties⟩ :=
        (r.off (.sending key ch created stream)).send_frame key ch created stream
      refine ⟨fun c st hst => ?_, fun q hq c hsends => ?_⟩
      · rcases hparked c st hst with rfl | hst
        · exact (h.sending _ hin c (by simp [Party.sendsOn])).send key c created stream
        · exact (h.parked c st hst).send key ch created stream
      · rcases hparties q hq with hq | hnot
        · exact (h.sending q (mem_off hq) c hsends).send key ch created stream
        · rw [(hnot c).2] at hsends
          cases hsends
    | scheduling key ch stream =>
      exact h.mono (fun c hw => hw.off _ rfl rfl (subset_cons_self _ _)) (fun _ _ hst => hst)
        (forall_mem_cons.mpr ⟨.inr fun _ => rfl, hoff⟩)
    | timer key ch =>
      by_cases hfound : (r.off (.timer key ch)).pending.lookup key = some ch
      · show (FetchRouter.fire _ key ch).Served
        rw [fire_of_found hfound]
        exact hcleanup key
      · simp only [FetchRouter.go, fire, if_neg hfound]
        exact h.mono (fun c hw => hw.off _ rfl rfl (List.Subset.refl _)) (fun _ _ hst => hst) hoff
    | reading key ch | leaving key ch => exact hcleanup key
    | draining ch => exact h.drain hok

/-- **No response is stranded**, in the runs where no cleanup or timer takes the last look at a
    channel that a `Deliver` has found and will send on: each accepted stream was received or
    cancelled, or is in a channel that is watched, and no channel that is not watched holds a
    stream. -/
theorem delivered_not_stranded {acts : List Act} {r : FetchRouter}
    (hrun : run step init acts = some r) (hok : Along step LooksLast init acts) :
    (∀ stream ∈ r.accepted, stream ∈ r.received ∨ stream ∈ r.cancelled ∨
      ∃ ch, r.parked ch = some stream ∧ r.Watched ch) ∧
    ∀ ch stream, r.parked ch = some stream → r.Watched ch := by
  have hkept : r.Accounted := run_inv (fun _ _ _ h => h.step) accounted_init hrun
  have hserved : r.Served :=
    run_inv_along (fun _ _ _ h ok => h.step ok) served_init hok hrun
  refine ⟨fun stream hin => ?_, hserved.parked⟩
  rcases hkept.accepted stream hin with h | h | ⟨ch, h⟩
  · exact .inl h
  · exact .inr (.inl h)
  · exact .inr (.inr ⟨ch, h, hserved.parked ch stream h⟩)

/-- The response races ahead of the registration; the reader gives up with a stream parked that
    its cleanup cancels, and a second response meets a new channel, which a timer will look at. -/
theorem delivered_not_stranded_late :
    ∃ r : FetchRouter, r.accepted = [11, 10] ∧ r.cancelled = [10] ∧
      ∃ ch, r.parked ch = some 11 ∧ r.Watched ch := by
  obtain ⟨r, hr, haccepted, hcancelled, hparked⟩ := computes (o := run step init
      [.deliver ⟨0, 4⟩ 10, .register ⟨0, 4⟩, .go (.sending ⟨0, 4⟩ 0 true 10),
        .go (.scheduling ⟨0, 4⟩ 0 10), .go (.reading ⟨0, 4⟩ 0), .go (.draining 0),
        .deliver ⟨0, 4⟩ 11, .go (.timer ⟨0, 4⟩ 0), .go (.sending ⟨0, 4⟩ 1 true 11),
        .go (.scheduling ⟨0, 4⟩ 1 11)])
    (P := fun r => r.accepted = [11, 10] ∧ r.cancelled = [10] ∧ r.parked 1 = some 11)
    (by decide +kernel)
  exact ⟨r, haccepted, hcancelled, 1, hparked,
    (delivered_not_stranded hr (by decide +kernel)).2 1 11 hparked⟩

/-- `Deliver` finds the reader's channel; the reader gives up and its cleanup finds the channel
    empty; then `Deliver` sends and returns true. -/
theorem delivered_after_cleanup :
    ∃ acts r, run step init acts = some r ∧ 10 ∈ r.accepted ∧ 10 ∉ r.received ∧
      10 ∉ r.cancelled ∧ r.parked 0 = some 10 ∧ ¬ r.Watched 0 := by
  obtain ⟨r, hr, hin, hreceived, hcancelled, hparked, hkeys, hparties⟩ := computes
    (o := run step init [.register ⟨0, 4⟩, .deliver ⟨0, 4⟩ 10, .go (.reading ⟨0, 4⟩ 0),
      .go (.draining 0), .go (.sending ⟨0, 4⟩ 0 false 10)])
    (P := fun r => 10 ∈ r.accepted ∧ 10 ∉ r.received ∧ 10 ∉ r.cancelled ∧ r.parked 0 = some 10 ∧
      r.pending.keys = [] ∧ r.parties = []) (by decide +kernel)
  refine ⟨_, r, hr, hin, hreceived, hcancelled, hparked, ?_⟩
  intro hw
  rcases hw with ⟨key, hl⟩ | ⟨p, hp, -⟩
  · have hkey : key ∈ r.pending := lookup_isSome.mp (by simp [hl])
    rw [AList.mem_keys, hkeys] at hkey
    cases hkey
  · simp [hparties] at hp

/-- **The condition is exact.** A step breaks it exactly if it is a cleanup's or a timer's look at
    a channel, and a `Deliver` that has found this channel then parks its stream in it by its next
    step, where nobody looks. -/
theorem not_looksLast_iff_stranded {acts : List Act} (hrun : run step init acts = some r)
    (hs : r.step a = some r') :
    ¬ r.LooksLast a ↔ ∃ ch key created stream r'', a = .go (.draining ch) ∧
      r'.step (.go (.sending key ch created stream)) = some r'' ∧
      r''.parked ch = some stream ∧ ¬ r''.Watched ch := by
  have hkeyed : r.Keyed := run_inv (fun _ _ _ h => h.step) keyed_init hrun
  constructor
  · intro hnot
    unfold LooksLast at hnot
    split at hnot
    · next ch =>
      rw [Classical.not_imp] at hnot
      obtain ⟨hsender, hnobody⟩ := hnot
      obtain ⟨p, hp, hsends⟩ := any_eq_true.mp hsender
      cases p with
      | sending key ch' created stream =>
        obtain rfl : ch' = ch := by simpa [Party.sendsOn] using hsends
        obtain ⟨hin, rfl⟩ := guard_iff.mp hs
        obtain ⟨hpending, hparties, hparked⟩ := (r.off (.draining ch')).drain_frame ch'
        have hsender : Party.sending key ch' created stream ∈
            ((r.off (.draining ch')).drain ch').parties := by
          rw [hparties]
          exact (mem_erase_of_ne (by simp)).mpr hp
        have hempty : (((r.off (.draining ch')).drain ch').off
            (.sending key ch' created stream)).parked ch' = none :=
          Option.eq_none_iff_forall_ne_some.mpr fun st hst => (hparked ch' st hst).2 rfl
        obtain ⟨hpending', -, hparties'⟩ := (((r.off (.draining ch')).drain ch').off
          (.sending key ch' created stream)).send_frame key ch' created stream
        refine ⟨ch', key, created, stream, _, rfl, if_pos hsender, ?_, ?_⟩
        · simp only [FetchRouter.go, send, hempty]
          split <;> exact update_self _ _ _
        · intro hw
          rcases hw with ⟨k, hl⟩ | ⟨q, hq, hlooks⟩
          · have hl' : r.pending.lookup k = some ch' := by
              rw [← hl]
              exact congrArg _ (hpending'.trans hpending).symm
            have hk := (hkeyed.party _ hin).2 k hl'
            cases hk
          · rcases hparties' q hq with hq | hnot
            · have hq' := mem_off hq
              rw [hparties] at hq'
              exact hnobody (any_eq_true.mpr ⟨q, hq', hlooks⟩)
            · rw [(hnot ch').1] at hlooks
              cases hlooks
      | _ => cases hsends
    · exact absurd trivial hnot
  · rintro ⟨ch, key, created, stream, r'', rfl, hsend, -, hunwatched⟩ hlast
    obtain ⟨-, rfl⟩ := guard_iff.mp hs
    obtain ⟨hin, rfl⟩ := guard_iff.mp hsend
    obtain ⟨-, hparties, -⟩ := (r.off (.draining ch)).drain_frame ch
    have hin : .sending key ch created stream ∈ (r.off (.draining ch)).parties := hparties ▸ hin
    -- the other party that looks is still there after the send
    obtain ⟨w, hw, hlooks⟩ := any_eq_true.mp
      (hlast (any_eq_true.mpr ⟨_, mem_off hin, by simp [Party.sendsOn]⟩))
    have hwatched : ((r.off (.draining ch)).drain ch).Watched ch := .inr ⟨w, hparties ▸ hw, hlooks⟩
    exact hunwatched (hwatched.send key ch created stream)

/-- The reader of channel 0 gives up before the `Deliver` that has found it sends. -/
theorem stranded_after_early_look : ∃ r r' key created stream r'',
    run step init [.register ⟨0, 4⟩, .deliver ⟨0, 4⟩ 10, .go (.reading ⟨0, 4⟩ 0)] = some r ∧
    step r (.go (.draining 0)) = some r' ∧
    step r' (.go (.sending key 0 created stream)) = some r'' ∧
      r''.parked 0 = some stream ∧ ¬ r''.Watched 0 := by
  have hrun : run step init
    [.register ⟨0, 4⟩, .deliver ⟨0, 4⟩ 10, .go (.reading ⟨0, 4⟩ 0)] = some _ := rfl
  obtain ⟨ch, key, created, stream, r'', hch, hsend, hparked, hunwatched⟩ :=
    (not_looksLast_iff_stranded (a := .go (.draining 0)) hrun rfl).mp (by decide)
  cases hch
  exact ⟨_, _, key, created, stream, r'', hrun, rfl, hsend, hparked, hunwatched⟩

end FetchRouter
end MoqGo.Relay
