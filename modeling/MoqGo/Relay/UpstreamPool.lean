import MoqGo.Discovery.Memory

/-!
# One session per relay address (`pkg/relay/relay_upstream_pool.go`)

`get` looks an address up under the pool's lock. It waits for the entry it finds, or stores one of
its own and dials. The record of an entry is removed by whoever finds the session ended, by the
call whose dial failed and by the callback of `serveSession`, each under the lock again and **only
if the record is still that of the same entry**.

What carries the proof is that an attempt that is live has the record of its address
(`Inv.held`). A record is removed only when its entry is no longer live, so the address has no live
attempt then, and the next call may dial.
-/

namespace MoqGo.Relay

open Discovery
open Function (update update_of_ne update_self)

/-- A `*poolEntry`. -/
abbrev EntryRef := Nat

/-- An entry's dial, and then the session it made. -/
inductive Attempt
  | unmade
  | dialing
  | failed
  | up
  | ended
deriving DecidableEq, Repr

namespace Attempt

def Live (a : Attempt) : Prop := a = .dialing ∨ a = .up

def Made (a : Attempt) : Prop := a = .up ∨ a = .ended

/-- What may become of an attempt. -/
inductive Next : Attempt → Attempt → Prop
  | same {a : Attempt} : Next a a
  | dial : Next .unmade .dialing
  | dialed {ok : Bool} : Next .dialing (if ok then .up else .failed)
  | ends : Next .up .ended

theorem Next.made {a a' : Attempt} (h : Next a a') (hmade : a.Made) : a'.Made := by
  rcases hmade with rfl | rfl
  · cases h with
    | same => exact .inl rfl
    | ends => exact .inr rfl
  · cases h
    exact .inr rfl

theorem Next.over {a a' : Attempt} (h : Next a a') (hover : a = .failed ∨ a = .ended) : a' = a := by
  rcases hover with rfl | rfl <;> cases h <;> rfl

end Attempt

/-- `poolEntry`, with its address; whether `serveSession` was given the session, and whether its
    callback has run. -/
structure PoolEntry where
  relayAddr : Addr := ""
  attempt : Attempt := .unmade
  ready : Bool := false
  served : Bool := false
  evicted : Bool := false
deriving DecidableEq, Repr

/-- Where a call of `get` is: before it takes the lock, waiting for an entry's `ready`, before it
    removes an entry whose session has ended, in its dial, before it removes its own failed entry,
    before `serveSession`, or done. -/
inductive GetStage
  | lookup
  | waiting (e : EntryRef)
  | stale (e : EntryRef)
  | dialing (e : EntryRef)
  | dropping (e : EntryRef)
  | serving (e : EntryRef)
  | returned (sess : Option EntryRef)
deriving DecidableEq, Repr

/-- A call of `get`; `late` if dialing was stopped when it began. -/
structure GetCall where
  relayAddr : Addr
  stage : GetStage := .lookup
  late : Bool
deriving DecidableEq, Repr

/-- A dial that was started: by which call, for which entry, and whether the call was late. -/
structure Dial where
  call : Nat
  entry : EntryRef
  late : Bool
deriving DecidableEq, Repr

/-- `upstreamPool`, with its entries and the calls of `get`. `dials` and `seen` record the run:
    `seen` is what a call saw of an entry when it looked whether the session had ended. -/
structure UpstreamPool where
  entries : GoMap Addr EntryRef := ∅
  noDial : Bool := false
  heap : EntryRef → PoolEntry := fun _ => {}
  calls : Nat → Option GetCall := fun _ => none
  dials : List Dial := []
  seen : List (Nat × EntryRef × Attempt) := []

namespace UpstreamPool

def goto (p : UpstreamPool) (k : Nat) (c : GetCall) : UpstreamPool :=
  { p with calls := update p.calls k (some c) }

def setEntry (p : UpstreamPool) (e : EntryRef) (x : PoolEntry) : UpstreamPool :=
  { p with heap := update p.heap e x }

def remove (p : UpstreamPool) (relayAddr : Addr) (e : EntryRef) : UpstreamPool :=
  if p.entries.lookup relayAddr = some e then { p with entries := p.entries.erase relayAddr } else p

/-- `upstreamPool.get`, from one stage to the next; `new` is the entry it makes, if it does. -/
def get (p : UpstreamPool) (k : Nat) (c : GetCall) (new : EntryRef) : Option UpstreamPool :=
  match c.stage with
  | .lookup =>
    match p.entries.lookup c.relayAddr with
    | some e => some (p.goto k { c with stage := .waiting e })
    | none =>
      if p.noDial then some (p.goto k { c with stage := .returned none })
      else if (p.heap new).attempt = .unmade then
        let p := { p with
          entries := p.entries.insert c.relayAddr new
          dials := ⟨k, new, c.late⟩ :: p.dials }
        some ((p.setEntry new { relayAddr := c.relayAddr, attempt := .dialing }).goto k
          { c with stage := .dialing new })
      else none
  | .dialing e =>
    let done := p.setEntry e { p.heap e with ready := true }
    match (p.heap e).attempt with
    | .unmade | .dialing => none
    | .failed => some (done.goto k { c with stage := .dropping e })
    | .up | .ended => some (done.goto k { c with stage := .serving e })
  | .dropping e => some ((p.remove c.relayAddr e).goto k { c with stage := .returned none })
  | .serving e =>
    some ((p.setEntry e { p.heap e with served := true }).goto k
      { c with stage := .returned (some e) })
  | .waiting e =>
    let looked := { p with seen := (k, e, (p.heap e).attempt) :: p.seen }
    if (p.heap e).ready = false then none
    else if (p.heap e).attempt = .failed then some (p.goto k { c with stage := .returned none })
    else if (p.heap e).attempt = .ended then some (looked.goto k { c with stage := .stale e })
    else some (looked.goto k { c with stage := .returned (some e) })
  | .stale e =>
    -- the recursive call begins here
    some ((p.remove c.relayAddr e).goto k ⟨c.relayAddr, .lookup, p.noDial⟩)
  | .returned _ => none

inductive Action
  | begin (k : Nat) (relayAddr : Addr)
  | get (k : Nat) (new : EntryRef)
  | dialed (e : EntryRef) (ok : Bool)
  | ends (e : EntryRef)
  | evict (e : EntryRef)
  | stopDialing
deriving DecidableEq, Repr

/-- The callback of `serveSession` runs once, after the session has ended. -/
def step (p : UpstreamPool) : Action → Option UpstreamPool
  | .begin k relayAddr =>
    if p.calls k = none then some (p.goto k ⟨relayAddr, .lookup, p.noDial⟩) else none
  | .get k new => (p.calls k).bind fun c => p.get k c new
  | .dialed e ok =>
    if (p.heap e).attempt = .dialing then
      some (p.setEntry e { p.heap e with attempt := if ok then .up else .failed })
    else none
  | .ends e =>
    if (p.heap e).attempt = .up then some (p.setEntry e { p.heap e with attempt := .ended })
    else none
  | .evict e =>
    if (p.heap e).attempt = .ended ∧ (p.heap e).served = true ∧ (p.heap e).evicted = false then
      some ((p.setEntry e { p.heap e with evicted := true }).remove (p.heap e).relayAddr e)
    else none
  | .stopDialing => some { p with noDial := true }

/-- `e` is a live attempt at `relayAddr`. -/
def LiveAt (p : UpstreamPool) (relayAddr : Addr) (e : EntryRef) : Prop :=
  (p.heap e).relayAddr = relayAddr ∧ (p.heap e).attempt.Live

/-- The step may remove the record of `e`: it is the callback of its session, or by a call that
    found its session ended or its own dial failed. -/
def Removes (p : UpstreamPool) (a : Action) (e : EntryRef) : Prop :=
  a = .evict e ∨ ∃ k new c, a = .get k new ∧ p.calls k = some c ∧
    (c.stage = .stale e ∨ c.stage = .dropping e)

/-- Call `k` had a live session when it checked: it saw that the session had not ended, or the
    session is the one its own dial has made. -/
def Checked (p : UpstreamPool) (k : Nat) (e : EntryRef) : Prop :=
  (k, e, .up) ∈ p.seen ∨ (p.heap e).attempt.Made ∧ ∃ d ∈ p.dials, d.call = k ∧ d.entry = e

/-! ## The invariant -/

/-- What call `k` relies on. -/
def Fits (p : UpstreamPool) (k : Nat) : GetStage → Prop
  | .stale e => (p.heap e).attempt = .ended
  | .dialing e => ∃ d ∈ p.dials, d.call = k ∧ d.entry = e
  | .dropping e => (p.heap e).attempt = .failed
  | .serving e | .returned (some e) => p.Checked k e
  | .lookup | .waiting _ | .returned none => True

structure Inv (p : UpstreamPool) : Prop where
  /-- **A live attempt has the record of its address.** -/
  held : ∀ e, (p.heap e).attempt.Live → p.entries.lookup (p.heap e).relayAddr = some e
  ready : ∀ e, (p.heap e).ready = true → (p.heap e).attempt.Made ∨ (p.heap e).attempt = .failed
  calls : ∀ k c, p.calls k = some c → Fits p k c.stage ∧ (c.late = true → p.noDial = true)
  dials : ∀ d ∈ p.dials, d.late = false

theorem inv_init : Inv {} :=
  ⟨fun _ h => (by rcases h with h | h <;> cases h), nofun, nofun, nofun⟩

variable {p p' : UpstreamPool} {k : Nat} {c : GetCall} {e : EntryRef}

/-- What a step may do to what the calls rely on. -/
structure Grows (p p' : UpstreamPool) : Prop where
  next : ∀ e, (p.heap e).attempt.Next (p'.heap e).attempt
  dials : p.dials ⊆ p'.dials
  seen : p.seen ⊆ p'.seen

theorem Checked.grows (h : p.Checked k e) (hg : Grows p p') : p'.Checked k e := by
  rcases h with hseen | ⟨hmade, d, hd, hke⟩
  · exact .inl (hg.seen hseen)
  · exact .inr ⟨(hg.next e).made hmade, d, hg.dials hd, hke⟩

theorem Fits.grows {st : GetStage} (h : Fits p k st) (hg : Grows p p') : Fits p' k st := by
  cases st with
  | stale e => exact ((hg.next e).over (.inr h)).trans h
  | dropping e => exact ((hg.next e).over (.inl h)).trans h
  | dialing e =>
    obtain ⟨d, hd, hke⟩ := h
    exact ⟨d, hg.dials hd, hke⟩
  | serving e => exact Checked.grows h hg
  | returned sess =>
    cases sess with
    | none => trivial
    | some e => exact Checked.grows h hg
  | _ => trivial

theorem Inv.goto (h : Inv p) (hfits : Fits p k c.stage) (hlate : c.late = true → p.noDial = true) :
    Inv (p.goto k c) where
  held := h.held
  ready := h.ready
  calls k' c' hk' := by
    have hg : Grows p (p.goto k c) := ⟨fun _ => .same, List.Subset.refl _, List.Subset.refl _⟩
    rcases Lib.update_eq_some hk' with ⟨rfl, rfl⟩ | ⟨-, hk'⟩
    · exact ⟨hfits.grows hg, hlate⟩
    · exact ⟨(h.calls k' c' hk').1.grows hg, (h.calls k' c' hk').2⟩
  dials := h.dials

theorem Inv.looked (h : Inv p) (l : Nat × EntryRef × Attempt) :
    Inv { p with seen := l :: p.seen } where
  held := h.held
  ready := h.ready
  calls k c hk := by
    refine ⟨(h.calls k c hk).1.grows ?_, (h.calls k c hk).2⟩
    exact ⟨fun _ => .same, List.Subset.refl _, List.subset_cons_self _ _⟩
  dials := h.dials

theorem next_update {x : PoolEntry} (hnext : (p.heap e).attempt.Next x.attempt) (e' : EntryRef) :
    (p.heap e').attempt.Next (update p.heap e x e').attempt := by
  rcases eq_or_ne e' e with rfl | hne
  · rwa [update_self]
  · rw [update_of_ne hne]
    exact .same

theorem Inv.setEntry {x : PoolEntry} (h : Inv p) (haddr : x.relayAddr = (p.heap e).relayAddr)
    (hnext : (p.heap e).attempt.Next x.attempt) (hlive : x.attempt.Live → (p.heap e).attempt.Live)
    (hready : x.ready = true → x.attempt.Made ∨ x.attempt = .failed) : Inv (p.setEntry e x) where
  held e' hl := by
    simp only [UpstreamPool.setEntry] at hl ⊢
    rcases eq_or_ne e' e with rfl | hne
    · rw [update_self] at hl ⊢
      rw [haddr]
      exact h.held e' (hlive hl)
    · rw [update_of_ne hne] at hl ⊢
      exact h.held e' hl
  ready e' hr := by
    simp only [UpstreamPool.setEntry] at hr ⊢
    rcases eq_or_ne e' e with rfl | hne
    · rw [update_self] at hr ⊢
      exact hready hr
    · rw [update_of_ne hne] at hr ⊢
      exact h.ready e' hr
  calls k c hk := by
    refine ⟨(h.calls k c hk).1.grows ?_, (h.calls k c hk).2⟩
    exact ⟨next_update hnext, List.Subset.refl _, List.Subset.refl _⟩
  dials := h.dials

theorem Inv.mark {x : PoolEntry} (h : Inv p) (haddr : x.relayAddr = (p.heap e).relayAddr)
    (hattempt : x.attempt = (p.heap e).attempt)
    (hready : x.ready = true → x.attempt.Made ∨ x.attempt = .failed) : Inv (p.setEntry e x) := by
  refine h.setEntry haddr ?_ (fun hl => hattempt ▸ hl) hready
  rw [hattempt]
  exact .same

/-- **The record of an attempt that is over is removed.** A live attempt at the address would have
    the record itself. -/
theorem Inv.remove (h : Inv p) (hover : (p.heap e).attempt = .failed ∨ (p.heap e).attempt = .ended)
    (addr : Addr) : Inv (p.remove addr e) := by
  unfold UpstreamPool.remove
  split_ifs with hsame
  · refine ⟨fun e' hl => ?_, h.ready, fun k c hk => ?_, h.dials⟩
    · have hrec := h.held e' hl
      have hne : (p.heap e').relayAddr ≠ addr := by
        intro heq
        rw [heq, hsame] at hrec
        cases hrec
        rcases hl with hl | hl <;> rw [hl] at hover <;> rcases hover with h | h <;> cases h
      exact (AList.lookup_erase_ne hne).trans hrec
    · refine ⟨(h.calls k c hk).1.grows ?_, (h.calls k c hk).2⟩
      exact ⟨fun _ => .same, List.Subset.refl _, List.Subset.refl _⟩
  · exact h

/-- **A dial starts** where the address has no record, so no live attempt either. -/
theorem Inv.dial (h : Inv p) (hk : p.calls k = some c) {new : EntryRef}
    (hnone : p.entries.lookup c.relayAddr = none) (hdial : p.noDial = false)
    (hnew : (p.heap new).attempt = .unmade) :
    Inv ({ p with
      entries := p.entries.insert c.relayAddr new
      dials := ⟨k, new, c.late⟩ :: p.dials }.setEntry new
        { relayAddr := c.relayAddr, attempt := .dialing }) where
  held e hl := by
    simp only [UpstreamPool.setEntry] at hl ⊢
    rcases eq_or_ne e new with rfl | hne
    · rw [update_self]
      exact AList.lookup_insert _
    · rw [update_of_ne hne] at hl ⊢
      have hrec := h.held e hl
      have haddr : (p.heap e).relayAddr ≠ c.relayAddr := by
        intro heq
        rw [heq, hnone] at hrec
        cases hrec
      exact (AList.lookup_insert_ne haddr).trans hrec
  ready e hr := by
    simp only [UpstreamPool.setEntry] at hr ⊢
    rcases eq_or_ne e new with rfl | hne
    · rw [update_self] at hr
      cases hr
    · rw [update_of_ne hne] at hr ⊢
      exact h.ready e hr
  calls k' c' hk' := by
    refine ⟨(h.calls k' c' hk').1.grows ⟨next_update ?_, List.subset_cons_self _ _,
      List.Subset.refl _⟩, (h.calls k' c' hk').2⟩
    rw [hnew]
    exact .dial
  dials d hd := by
    rcases List.mem_cons.mp hd with rfl | hd
    · refine Bool.eq_false_iff.mpr fun hlate => ?_
      rw [(h.calls k c hk).2 hlate] at hdial
      cases hdial
    · exact h.dials d hd

theorem noDial_remove (addr : Addr) (e : EntryRef) : (p.remove addr e).noDial = p.noDial := by
  unfold UpstreamPool.remove
  split_ifs <;> rfl

theorem Inv.get {new : EntryRef} (h : Inv p) (hk : p.calls k = some c)
    (hs : p.get k c new = some p') : Inv p' := by
  obtain ⟨hfits, hlate⟩ := h.calls k c hk
  unfold UpstreamPool.get at hs
  split at hs
  · split at hs
    · cases hs
      exact h.goto trivial hlate
    · next hnone =>
      split_ifs at hs with hdial hnew
      · cases hs
        exact h.goto trivial hlate
      · cases hs
        exact (h.dial hk hnone (Bool.eq_false_iff.mpr hdial) hnew).goto
          ⟨_, List.mem_cons_self, rfl, rfl⟩ hlate
  · next e hstage =>
    rw [hstage] at hfits
    have hdone (hover : (p.heap e).attempt.Made ∨ (p.heap e).attempt = .failed) :
        Inv (p.setEntry e { p.heap e with ready := true }) := h.mark rfl rfl fun _ => hover
    have hsame : ((p.setEntry e { p.heap e with ready := true }).heap e).attempt =
        (p.heap e).attempt := by simp [UpstreamPool.setEntry]
    split at hs
    · cases hs
    · cases hs
    · next hfailed =>
      cases hs
      refine (hdone (.inr hfailed)).goto ?_ hlate
      exact hsame.trans hfailed
    · next hup =>
      cases hs
      refine (hdone (.inl (.inl hup))).goto ?_ hlate
      exact .inr ⟨.inl (hsame.trans hup), hfits⟩
    · next hended =>
      cases hs
      refine (hdone (.inl (.inr hended))).goto ?_ hlate
      exact .inr ⟨.inr (hsame.trans hended), hfits⟩
  · next e hstage =>
    rw [hstage] at hfits
    cases hs
    exact (h.remove (.inl hfits) _).goto trivial fun hl => (noDial_remove _ _).trans (hlate hl)
  · next e hstage =>
    rw [hstage] at hfits
    cases hs
    have hinv : Inv (p.setEntry e { p.heap e with served := true }) := h.mark rfl rfl (h.ready e)
    refine hinv.goto ?_ hlate
    exact Checked.grows hfits ⟨next_update .same, List.Subset.refl _, List.Subset.refl _⟩
  · next e hstage =>
    split_ifs at hs with hready hfailed hended
    · cases hs
      exact h.goto trivial hlate
    · cases hs
      exact (h.looked _).goto hended hlate
    · have hup : (p.heap e).attempt = .up := by
        rcases h.ready e (Bool.eq_true_of_not_eq_false hready) with (hup | hend) | hfail
        · exact hup
        · exact absurd hend hended
        · exact absurd hfail hfailed
      rw [hup] at hs
      cases hs
      refine (h.looked (k, e, .up)).goto ?_ hlate
      exact .inl List.mem_cons_self
  · next e hstage =>
    rw [hstage] at hfits
    cases hs
    exact (h.remove (.inr hfits) _).goto trivial fun hl => (noDial_remove _ _).trans hl
  · cases hs

theorem Inv.step {a : Action} (h : Inv p) (hs : p.step a = some p') : Inv p' := by
  cases a with
  | begin k relayAddr =>
    obtain ⟨-, rfl⟩ := Lib.guard_iff.mp hs
    exact h.goto trivial id
  | get k new =>
    obtain ⟨c, hk, hs⟩ := Option.bind_eq_some_iff.mp hs
    exact h.get hk hs
  | dialed e ok =>
    obtain ⟨hdialing, rfl⟩ := Lib.guard_iff.mp hs
    refine h.setEntry rfl ?_ (fun _ => .inl hdialing) fun _ => ?_
    · rw [hdialing]
      exact .dialed
    · cases ok with
      | true => exact .inl (.inl rfl)
      | false => exact .inr rfl
  | ends e =>
    obtain ⟨hup, rfl⟩ := Lib.guard_iff.mp hs
    refine h.setEntry rfl ?_ (fun _ => .inr hup) fun _ => .inl (.inr rfl)
    rw [hup]
    exact .ends
  | evict e =>
    obtain ⟨⟨hended, -⟩, rfl⟩ := Lib.guard_iff.mp hs
    have hinv : Inv (p.setEntry e { p.heap e with evicted := true }) := h.mark rfl rfl (h.ready e)
    exact hinv.remove (.inr (by simpa [UpstreamPool.setEntry] using hended)) _
  | stopDialing =>
    cases hs
    exact ⟨h.held, h.ready, fun k c hk => ⟨(h.calls k c hk).1.grows
      ⟨fun _ => .same, List.Subset.refl _, List.Subset.refl _⟩, fun _ => rfl⟩, h.dials⟩

/-! ## One session per relay address -/

theorem lookup_remove {addr addr' : Addr} {e' : EntryRef} (h : p.entries.lookup addr' = some e') :
    (p.remove addr e).entries.lookup addr' = some e' ∨
      (p.remove addr e).entries.lookup addr' = none ∧ e' = e := by
  unfold UpstreamPool.remove
  split_ifs with hsame
  · rcases eq_or_ne addr' addr with rfl | hne
    · rw [hsame] at h
      exact .inr ⟨AList.lookup_erase .., (Option.some.inj h).symm⟩
    · exact .inl ((AList.lookup_erase_ne hne).trans h)
  · exact .inl h

theorem record_step {a : Action} {addr : Addr} (hs : p.step a = some p')
    (hrec : p.entries.lookup addr = some e) :
    p'.entries.lookup addr = some e ∨ p'.entries.lookup addr = none ∧ p.Removes a e := by
  cases a with
  | begin k relayAddr =>
    obtain ⟨-, rfl⟩ := Lib.guard_iff.mp hs
    exact .inl hrec
  | dialed e' ok =>
    obtain ⟨-, rfl⟩ := Lib.guard_iff.mp hs
    exact .inl hrec
  | ends e' =>
    obtain ⟨-, rfl⟩ := Lib.guard_iff.mp hs
    exact .inl hrec
  | evict e' =>
    obtain ⟨-, rfl⟩ := Lib.guard_iff.mp hs
    refine (lookup_remove (p := p.setEntry e' _) hrec).imp_right fun ⟨hnone, heq⟩ => ?_
    exact ⟨hnone, .inl (heq ▸ rfl)⟩
  | stopDialing =>
    cases hs
    exact .inl hrec
  | get k new =>
    obtain ⟨c, hk, hs⟩ := Option.bind_eq_some_iff.mp hs
    have hgone : ∀ e', c.stage = .stale e' ∨ c.stage = .dropping e' →
        (p.remove c.relayAddr e').entries.lookup addr = some e ∨
          (p.remove c.relayAddr e').entries.lookup addr = none ∧ p.Removes (.get k new) e := by
      intro e' hstage
      refine (lookup_remove hrec).imp_right fun ⟨hnone, heq⟩ => ?_
      exact ⟨hnone, .inr ⟨k, new, c, rfl, hk, heq ▸ hstage⟩⟩
    unfold UpstreamPool.get at hs
    split at hs
    · split at hs
      · cases hs
        exact .inl hrec
      · next hnone =>
        split_ifs at hs
        · cases hs
          exact .inl hrec
        · cases hs
          have hne : addr ≠ c.relayAddr := by
            rintro rfl
            cases hrec.symm.trans hnone
          exact .inl ((AList.lookup_insert_ne hne).trans hrec)
    · split at hs <;> cases hs <;> exact .inl hrec
    · next e' hstage =>
      cases hs
      exact hgone e' (.inr hstage)
    · cases hs
      exact .inl hrec
    · split_ifs at hs <;> cases hs <;> exact .inl hrec
    · next e' hstage =>
      cases hs
      exact hgone e' (.inl hstage)
    · cases hs

/-- **One session per relay address.** In every run an address has at most one attempt that is
    live; a call that returned a session found it live when it checked; a record is removed only by
    a step that is about its entry; and no call that began after `stopDialing` started a dial. -/
theorem one_session_per_relay {acts : List Action} (hrun : Lib.run step {} acts = some p) :
    (∀ addr e e', p.LiveAt addr e → p.LiveAt addr e' → e = e') ∧
    (∀ k c e, p.calls k = some c → c.stage = .returned (some e) → p.Checked k e) ∧
    (∀ a p' addr e, p.step a = some p' → p.entries.lookup addr = some e →
      p'.entries.lookup addr = some e ∨ p'.entries.lookup addr = none ∧ p.Removes a e) ∧
    ∀ d ∈ p.dials, d.late = false := by
  have h : Inv p := Lib.run_inv (fun _ _ _ h hs => h.step hs) inv_init hrun
  refine ⟨?_, fun k c e hk hstage => ?_, fun a p' addr e => record_step, h.dials⟩
  · rintro addr e e' ⟨rfl, hlive⟩ ⟨haddr, hlive'⟩
    have hrec := h.held e' hlive'
    rw [haddr, h.held e hlive] at hrec
    exact Option.some.inj hrec
  · have hfits := (h.calls k c hk).1
    rwa [hstage] at hfits

/-- Two calls share a dial. The session ends, and a third call dials again before the callback of
    the first session runs; a fourth begins after `stopDialing`, and waits for the third's dial. -/
def dialAgain : List Action :=
  [.begin 0 "b", .get 0 0, .begin 1 "b", .get 1 9, .dialed 0 true, .get 0 9, .get 1 9, .get 0 9,
    .ends 0, .begin 2 "b", .get 2 9, .get 2 9, .get 2 9, .get 2 1, .evict 0, .stopDialing,
    .begin 3 "b", .get 3 9]

theorem one_session_per_relay_again : ∃ p, Lib.run step {} dialAgain = some p ∧
    p.dials = [⟨2, 1, false⟩, ⟨0, 0, false⟩] ∧ p.LiveAt "b" 1 ∧ (∀ e, p.LiveAt "b" e → e = 1) ∧
    p.Checked 1 0 := by
  have hrun : Lib.run step {} dialAgain = some _ := rfl
  obtain ⟨honce, hchecked, -⟩ := one_session_per_relay hrun
  refine ⟨_, hrun, rfl, ⟨rfl, .inl rfl⟩, fun e he => ?_, hchecked 1 _ 0 rfl rfl⟩
  exact honce "b" e 1 he ⟨rfl, .inl rfl⟩

end UpstreamPool
end MoqGo.Relay
