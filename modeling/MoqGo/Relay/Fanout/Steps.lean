import MoqGo.Relay.Fanout.World

/-!
# What a step of the fan-out can do

`Step` says once what each action changes, with the point of `runFanout` it is taken at. The
many that only move one contributor on, after a call on the ledger or none, are the single
constructor `moves`: the invariants about claims, sets and writers have nothing to do there.
-/

namespace MoqGo.Relay

open Message

def Phase.quiet : Phase → Bool
  | .reading _ _ | .claimed _ _ _ | .left => false
  | _ => true

def Phase.offersAgedOut : Phase → Bool
  | .claimed .agedOut _ _ => true
  | _ => false

def Phase.pendingSubs : Phase → List SubID
  | .copied subs _ | .seeding subs _ _ => subs
  | _ => []

def Phase.snapshot : Phase → Option (List SubID × Nat)
  | .copied subs gen | .seeding subs gen _ => some (subs, gen)
  | _ => none

/-- `LowestForwarded` has returned, and its answer is not applied yet. -/
def Phase.seeds : Phase → Bool
  | .seeding _ _ _ => true
  | _ => false

theorem Phase.snapshot_of_mem {p : Phase} {sub : SubID} (h : sub ∈ p.pendingSubs) :
    ∃ subs gen, p.snapshot = some (subs, gen) ∧ sub ∈ subs := by
  cases p with
  | copied subs gen => exact ⟨subs, gen, rfl, h⟩
  | seeding subs gen lowest => exact ⟨subs, gen, rfl, h⟩
  | _ => cases h

theorem Phase.mem_of_snapshot {p : Phase} {subs : List SubID} {gen : Nat} {sub : SubID}
    (h : p.snapshot = some (subs, gen)) (hsub : sub ∈ subs) : sub ∈ p.pendingSubs := by
  cases p <;> cases h <;> exact hsub

namespace World

/-- What an action can do. -/
inductive Step (W : World) : Action → World → Prop
  /-- A contributor joins the Subgroup's set. -/
  | joins {c : ContribID} {hdr : SubgroupHeader} {dur : Option Nat} {sg : SharedSubgroup SetID}
      (hc : W.contribs c = none) (hl : W.entry.subgroups.lookup (headerKey hdr) = some sg) :
      Step W (.acquire c hdr dur)
        ({ W with
            entry := { W.entry with
              subgroups := W.entry.subgroups.insert (headerKey hdr)
                { sg with refs := sg.refs + 1 } } }.putContrib c
          { hdr := hdr, set := sg.set, phase := .loop, maxCacheDuration := dur })
  /-- A contributor makes the Subgroup's set. -/
  | makes {c : ContribID} {hdr : SubgroupHeader} {dur : Option Nat} (hc : W.contribs c = none)
      (hl : W.entry.subgroups.lookup (headerKey hdr) = none) :
      Step W (.acquire c hdr dur)
        ({ W with
            entry := { W.entry with
              subgroups := W.entry.subgroups.insert (headerKey hdr) ⟨W.nextSet, 1⟩ }
            sets := Function.update W.sets W.nextSet { hdr := hdr }
            nextSet := W.nextSet + 1 }.putContrib c
          { hdr := hdr, set := W.nextSet, phase := .created, maxCacheDuration := dur })
  /-- Contributor `c` goes on, after a call on the ledger or none. -/
  | moves {a : Action} {c : ContribID} {ct ct' : Contributor} {call : Option Ledger.Call}
      {cache : ObjectCache} (hc : W.contribs c = some ct) (hp : ct.phase ≠ .left)
      (hhdr : ct'.hdr = ct.hdr) (hset : ct'.set = ct.set) (hp' : ct'.phase.quiet = true)
      (hsnap : ∀ s, ct'.phase.snapshot = some s →
        ct.phase.snapshot = some s ∨ s = W.entry.copyDownstreamWithGen)
      (hseeds : ct'.phase.seeds = true → a = .lowestForwarded c) :
      Step W a ({ W with entry := W.entry.after call cache }.putContrib c ct')
  | openInitial {c : ContribID} {ct : Contributor} {established : SubID → Bool}
      {subs : List SubID} {gen : Nat} {lowest : Option UInt64} (hc : W.contribs c = some ct)
      (hp : ct.phase = .seeding subs gen lowest) :
      Step W (.openInitial c established)
        ((W.putContrib c { ct with phase := .loop }).putSet ct.set
          ((W.sets ct.set).openInitial W.cfg established subs gen lowest))
  | header {c : ContribID} {ct : Contributor} {id : UInt64} {obj : SubgroupObject}
      {established : SubID → Bool} (hc : W.contribs c = some ct) (hp : ct.phase = .loop) :
      Step W (.header c id obj established) (W.headerRead c ct id obj established)
  | claimAgedOut {c : ContribID} {ct : Contributor} {now : Nat} {obj : SubgroupObject}
      {heard : Heard} {cache : ObjectCache} (hc : W.contribs c = some ct)
      (hp : ct.phase = .reading obj heard)
      (h : (W.entry.ledger.claimDelivered (ct.info obj)).2 = (.agedOut, none)) :
      Step W (.claim c now)
        ({ W with entry := W.entry.after (some (.claimDelivered (ct.info obj))) cache }.putContrib c
          { ct.readObject obj with phase := .claimed .agedOut obj heard })
  | claimFresh {c : ContribID} {ct : Contributor} {now : Nat} {obj : SubgroupObject}
      {heard : Heard} {cache : ObjectCache} (hc : W.contribs c = some ct)
      (hp : ct.phase = .reading obj heard)
      (h : (W.entry.ledger.claimDelivered (ct.info obj)).2 = (.fresh, none)) :
      Step W (.claim c now)
        ({ W with
            entry := W.entry.after (some (.claimDelivered (ct.info obj))) cache
            freshClaimed := (ct.key, ct.objectID) :: W.freshClaimed }.putContrib c
          { ct.readObject obj with phase := .claimed .fresh obj heard })
  | done {c : ContribID} {ct : Contributor} {leaves : Bool} (hc : W.contribs c = some ct)
      (hp : ct.phase = .dropping leaves) :
      Step W (.done c)
        ((W.putContrib c { ct with phase := if leaves then .ended else .loop }).putSet ct.set
          ((W.sets ct.set).doneReading ct.objectID))
  /-- `admitAgedOut` drops the Object. -/
  | drops {c : ContribID} {ct : Contributor} {now : Nat} {verdict : SubID → ForwardVerdict}
      {claim : Claim} {obj : SubgroupObject} {heard : Heard} {s : WriterSet}
      (hc : W.contribs c = some ct) (hp : ct.phase = .claimed claim obj heard)
      (hadm : ((W.sets ct.set).doneReading ct.objectID).admitAgedOut claim verdict ct.objectID =
        (s, false)) :
      Step W (.forward c now verdict)
        ((W.putContrib c { ct with phase := .loop }).putSet ct.set s)
  /-- `admitAgedOut` lets the Object through to `forward`. -/
  | forwards {c : ContribID} {ct : Contributor} {now : Nat} {verdict : SubID → ForwardVerdict}
      {claim : Claim} {obj : SubgroupObject} {heard : Heard} {s : WriterSet} {cache : ObjectCache}
      (hc : W.contribs c = some ct) (hp : ct.phase = .claimed claim obj heard)
      (hs : s = (W.sets ct.set).doneReading ct.objectID)
      (hadm : claim = .agedOut → s.hasRun = true ∧ s.runHi < ct.objectID) :
      Step W (.forward c now verdict)
        { (W.putContrib c { ct with phase := .loop }).putSet ct.set
            (s.forward verdict ⟨c, ct.seq⟩ ct.objectID obj ct.isTrueFirst heard.count) with
          entry := W.entry.after none cache
          forwards := (ct.key, ct.objectID) :: W.forwards
          handed := Function.update W.handed ct.set fun sub =>
            if s.hands verdict heard.count sub then
              W.handed ct.set sub ++ [(ct.key, ct.objectID)]
            else W.handed ct.set sub }
  | leave {c : ContribID} {ct : Contributor} {groupOutOfRange : SubID → Bool}
      (hc : W.contribs c = some ct) (hp : ct.phase = .ended) :
      Step W (.leave c groupOutOfRange) (W.leave c ct groupOutOfRange)
  | register {sub : SubID} (hsub : sub ∉ W.entry.downstream) :
      Step W (.register sub)
        { W with
          entry := W.entry.addDownstreamSnapshotLargest sub
          registered := Function.update W.registered sub W.headers.length }
  /-- Others call the ledger or write the cache. -/
  | others {a : Action} {call : Option Ledger.Call} {cache : ObjectCache} :
      Step W a { W with entry := W.entry.after call cache }
  | dequeue {i : SetID} {sub : SubID} {fate : Fate} {w : Writer} {fwd : FwdObject}
      {rest : List FwdObject} (hw : (W.sets i).writers sub = some (some w))
      (hfin : w.finished = false) (hlag : w.lagExceeded = false) (hin : w.inbox = fwd :: rest) :
      Step W (.dequeue i sub fate) (W.putWriter i sub ({ w with inbox := rest }.handle fwd fate))
  | finish {i : SetID} {sub : SubID} {w : Writer} (hw : (W.sets i).writers sub = some (some w))
      (hfin : w.finished = false)
      (hend : w.lagExceeded = true ∨ w.closeCalled = true ∧ w.inbox = []) :
      Step W (.finish i sub) (W.putWriter i sub w.finish)

variable {W : World} {c : ContribID} {ct : Contributor} {a : Action} {now : Nat}
  {obj : SubgroupObject} {verdict : SubID → ForwardVerdict}

theorem Step.handed {W' : World} (h : Step W a W')
    (ha : ∀ c now verdict, a ≠ .forward c now verdict) : W'.handed = W.handed := by
  cases h with
  | drops | forwards => exact absurd rfl (ha _ _ _)
  | _ => rfl

theorem contribs_putContrib {c' : ContribID} {ct' : Contributor}
    (h : (W.putContrib c ct).contribs c' = some ct') :
    c' = c ∧ ct' = ct ∨ c' ≠ c ∧ W.contribs c' = some ct' := by
  by_cases hc : c' = c
  · subst hc
    simp only [putContrib, Function.update_self, Option.some.injEq] at h
    exact .inl ⟨rfl, h.symm⟩
  · exact .inr ⟨hc, by simpa [putContrib, Function.update_of_ne hc] using h⟩

theorem putContrib_cases {P : Contributor → Prop} (hct : P ct) (c' : ContribID) (ct' : Contributor)
    (h : (W.putContrib c ct).contribs c' = some ct') : W.contribs c' = some ct' ∨ P ct' := by
  rcases contribs_putContrib h with ⟨-, rfl⟩ | ⟨-, h⟩
  · exact .inr hct
  · exact .inl h

/-- What `headerRead` finds for a set: the registered subscribers it has no writer for, unless
    none was registered since the set's last look. -/
structure Joiners (W : World) (s : WriterSet) (subs : List SubID) (gen : Nat) : Prop where
  latest : gen = W.entry.downstreamGen
  new : ∀ sub ∈ subs, sub ∈ W.entry.downstream ∧ s.writers sub = none
  all : s.gen ≠ gen → ∀ sub ∈ W.entry.downstream, s.writers sub = none → sub ∈ subs

/-- **`headerRead`**, as an update: the new subscribers' writers are opened and the header is
    noted. -/
theorem headerRead_eq (W : World) (c : ContribID) (ct : Contributor) (id : UInt64)
    (obj : SubgroupObject) (established : SubID → Bool) :
    ∃ (largest : Location) (known : Bool) (subs : List SubID) (gen : Nat)
      (noted : SetID → UInt64 → Nat) (s : WriterSet),
      s = subs.foldl (fun s sub => s.joinWriter W.cfg established sub)
        { W.sets ct.set with gen := gen } ∧
      W.Joiners (W.sets ct.set) subs gen ∧
      noted = (if s.reading.any fun r => r.id = id then W.noted
        else Function.update W.noted ct.set
          (Function.update (W.noted ct.set) id W.headers.length)) ∧
      W.headerRead c ct id obj established =
        { (W.putSet ct.set (s.noteHeader id s.opened).1).putContrib c
            { ct with
              objectID := id
              havePrev := true
              phase := .reading obj ⟨(s.noteHeader id s.opened).2, noted ct.set id⟩ } with
          entry := { W.entry with largestObject := largest, hasLargestObject := known }
          headers := W.headers ++ [(ct.key, id)]
          noted := noted } := by
  obtain ⟨largest, known, subs, heq, hsubs⟩ := W.entry.updateLargestAndDetectNew_eq
    ⟨ct.hdr.groupID, id⟩ (fun sub => ((W.sets ct.set).writers sub).isSome) (W.sets ct.set).gen
  refine ⟨largest, known, subs, W.entry.downstreamGen, _, _, rfl, ⟨rfl, ?_, ?_⟩, rfl, ?_⟩
  · intro sub hmem
    obtain ⟨-, hdown, hseen⟩ := (hsubs sub).mp hmem
    exact ⟨hdown, by simpa using hseen⟩
  · intro hgen sub hdown hnone
    exact (hsubs sub).mpr ⟨hgen.symm, hdown, by simp [hnone]⟩
  · unfold headerRead
    simp only [heq]

/-! ## Each action is one of them -/

theorem step_acquire (hc : W.contribs c = none) (hdr : SubgroupHeader) (dur : Option Nat) :
    Step W (.acquire c hdr dur) (W.acquire c hdr dur) := by
  unfold acquire TrackEntry.acquireSubgroup
  cases hl : W.entry.subgroups.lookup (headerKey hdr) with
  | some sg => exact .joins hc hl
  | none => exact .makes hc hl

section

variable (hc : W.contribs c = some ct)
include hc

theorem Step.moves_plain {ct' : Contributor} (hp : ct.phase ≠ .left)
    (hhdr : ct'.hdr = ct.hdr) (hset : ct'.set = ct.set) (hp' : ct'.phase.quiet = true)
    (hsnap : ∀ s, ct'.phase.snapshot = some s →
      ct.phase.snapshot = some s ∨ s = W.entry.copyDownstreamWithGen)
    (hseeds : ct'.phase.seeds = true → a = .lowestForwarded c) : Step W a (W.putContrib c ct') :=
  @Step.moves W a c ct ct' none W.entry.cache hc hp hhdr hset hp' hsnap hseeds

theorem Step.moves_call {ct' : Contributor} {call : Ledger.Call}
    (hp : ct.phase ≠ .left) (hhdr : ct'.hdr = ct.hdr) (hset : ct'.set = ct.set)
    (hp' : ct'.phase.quiet = true) (hsnap : ct'.phase.snapshot = none) :
    Step W a ({ W with entry := (W.entry.call now call).1 }.putContrib c ct') := by
  obtain ⟨cache, h⟩ := W.entry.call_eq now call
  rw [h]
  refine .moves hc hp hhdr hset hp' (by simp [hsnap]) fun hseeds => ?_
  cases hphase : ct'.phase <;> simp [hphase, Phase.snapshot, Phase.seeds] at hsnap hseeds

theorem step_claim {heard : Heard}
    (hp : ct.phase = .reading obj heard) : Step W (.claim c now) (W.claim c ct obj heard now) := by
  have hleft : ct.phase ≠ .left := by simp [hp]
  unfold claim
  split_ifs with hterm
  · exact .moves_plain hc hleft rfl rfl rfl nofun nofun
  · have hinfo : (ct.readObject obj).info obj = ct.info obj := rfl
    simp only [TrackEntry.claimDelivered, hinfo]
    obtain ⟨claim, err, h⟩ : ∃ claim err,
        (W.entry.ledger.claimDelivered (ct.info obj)).2 = (claim, err) := ⟨_, _, rfl⟩
    rw [h]
    cases err with
    | some err => exact .moves_call hc hleft rfl rfl rfl rfl
    | none =>
      cases claim with
      | redundant => exact .moves_call hc hleft rfl rfl rfl rfl
      | agedOut =>
        obtain ⟨cache, hcall⟩ := W.entry.call_eq now (.claimDelivered (ct.info obj))
        simp only [hcall]
        exact .claimAgedOut hc hp h
      | fresh =>
        obtain ⟨cache, hcall⟩ := W.entry.call_eq now (.claimDelivered (ct.info obj))
        simp only [hcall]
        exact .claimFresh hc hp h

theorem step_check (hp : ct.phase = .redundant obj) :
    Step W (.check c now) (W.check c ct obj now) := by
  have hleft : ct.phase ≠ .left := by simp [hp]
  unfold check
  simp only
  split
  · exact @Step.moves W _ c ct _ none _ hc hleft rfl rfl rfl nofun nofun
  · exact @Step.moves W _ c ct _ none _ hc hleft rfl rfl rfl nofun nofun

theorem step_record (hp : ct.phase = .recording obj) :
    Step W (.record c now) (W.record c ct obj now) := by
  have hleft : ct.phase ≠ .left := by simp [hp]
  unfold record
  simp only
  split
  · exact .moves_call hc hleft rfl rfl rfl rfl
  · exact .moves_call hc hleft rfl rfl rfl rfl

theorem step_eof (hp : ct.phase = .loop) : Step W (.eof c now) (W.eof c ct now) := by
  have hleft : ct.phase ≠ .left := by simp [hp]
  unfold eof
  split
  · exact .moves_plain hc hleft rfl rfl rfl nofun nofun
  · simp only
    split
    · exact .moves_call hc hleft rfl rfl rfl rfl
    · exact .moves_call hc hleft rfl rfl rfl rfl

end

theorem admitAgedOut_true {s s' : WriterSet} {claim : Claim} {objectID : UInt64}
    (h : s.admitAgedOut claim verdict objectID = (s', true)) :
    s' = s ∧ (claim = .agedOut → s.hasRun = true ∧ s.runHi < objectID) := by
  unfold WriterSet.admitAgedOut at h
  split_ifs at h with hadm
  · cases h
    refine ⟨rfl, ?_⟩
    intro hclaim
    simpa [hclaim] using hadm
  · cases h
  · cases h

theorem step_forward {claim : Claim} {heard : Heard} (hc : W.contribs c = some ct)
    (hp : ct.phase = .claimed claim obj heard) :
    Step W (.forward c now verdict) (W.forward c ct claim obj heard now verdict) := by
  unfold forward
  simp only
  split
  · next s hadm => exact .drops hc hp hadm
  · next s hadm =>
    obtain ⟨rfl, hrun⟩ := admitAgedOut_true hadm
    exact .forwards hc hp rfl hrun

theorem forward_eq (W : World) (c : ContribID) (ct : Contributor) (claim : Claim)
    (obj : SubgroupObject) (heard : Heard) (now : Nat) (verdict : SubID → ForwardVerdict) :
    let W' := W.forward c ct claim obj heard now verdict
    ∃ s ok, ((W.sets ct.set).doneReading ct.objectID).admitAgedOut claim verdict ct.objectID =
      (s, ok) ∧
    W'.sets = Function.update W.sets ct.set (if ok then
      s.forward verdict ⟨c, ct.seq⟩ ct.objectID obj ct.isTrueFirst heard.count else s) ∧
    W'.entry.subgroups = W.entry.subgroups ∧ W'.entry.ledger = W.entry.ledger ∧
    W'.nextSet = W.nextSet ∧
    W'.contribs = (W.putContrib c { ct with phase := .loop }).contribs ∧
    W'.handed = if ok then Function.update W.handed ct.set fun sub =>
        if s.hands verdict heard.count sub then W.handed ct.set sub ++ [(ct.key, ct.objectID)]
        else W.handed ct.set sub
      else W.handed := by
  obtain ⟨s, ok, hadm⟩ : ∃ s ok, (((W.putContrib c { ct with phase := .loop }).sets
    ct.set).doneReading ct.objectID).admitAgedOut claim verdict ct.objectID = (s, ok) := ⟨_, _, rfl⟩
  refine ⟨s, ok, hadm, ?_⟩
  simp only [forward, hadm]
  cases ok <;> exact ⟨rfl, rfl, rfl, rfl, rfl, rfl⟩

theorem finish_of {W' : World} {i : SetID} {sub : SubID} (h : W.step (.finish i sub) = some W') :
    ∃ w, (W.sets i).writers sub = some (some w) ∧ w.finished = false ∧
      (w.lagExceeded = true ∨ w.closeCalled = true ∧ w.inbox = []) ∧
      W' = W.putWriter i sub w.finish := by
  simp only [step] at h
  split at h
  · next w hw =>
    split_ifs at h with hguard
    cases h
    refine ⟨w, hw, ?_, ?_, rfl⟩ <;> simp_all
  · cases h

theorem claimed_of_forward {W' : World} (h : W.step (.forward c now verdict) = some W') :
    ∃ ct claim obj heard, W.contribs c = some ct ∧ ct.phase = .claimed claim obj heard ∧
      W' = W.forward c ct claim obj heard now verdict := by
  simp only [step] at h
  split at h
  · next ct hc =>
    split at h
    · next claim obj heard hp =>
      cases h
      exact ⟨ct, claim, obj, heard, hc, hp, rfl⟩
    · cases h
  · cases h

theorem step_of {W' : World} (h : W.step a = some W') : Step W a W' := by
  cases a with
  | acquire c hdr dur =>
    simp only [step] at h
    split at h
    · next hc =>
      cases h
      exact step_acquire hc hdr dur
    · cases h
  | register sub =>
    simp only [step] at h
    split_ifs at h with hsub
    cases h
    exact .register hsub
  | datagram now call =>
    simp only [step] at h
    split_ifs at h
    cases h
    obtain ⟨cache, hcall⟩ := W.entry.call_eq now call
    rw [hcall]
    exact .others
  | cache cache =>
    cases h
    exact @Step.others W _ none cache
  | dequeue i sub fate =>
    simp only [step] at h
    split at h
    · next w hw =>
      split_ifs at h with hguard
      simp only [Bool.or_eq_true, not_or, Bool.not_eq_true] at hguard
      split at h
      · next fwd rest hin =>
        cases h
        exact .dequeue hw hguard.1 hguard.2 hin
      · cases h
    · cases h
  | finish i sub =>
    obtain ⟨w, hw, hf, hend, rfl⟩ := finish_of h
    exact .finish hw hf hend
  | header c id obj established =>
    simp only [step] at h
    split at h
    · next ct hc =>
      split at h
      · next hp =>
        split_ifs at h
        cases h
        exact .header hc hp
      · cases h
    · cases h
  | copyDownstream c | lowestForwarded c | openInitial c established | abandon c | claim c now
  | check c now | record c now | done c | forward c now verdict | eof c now | fail c malformed
  | leave c groupOutOfRange =>
    simp only [step] at h
    split at h
    · next ct hc =>
      split at h
      · next hp =>
        cases h
        first
          | exact .openInitial hc hp | exact step_claim hc hp | exact step_check hc hp
          | exact step_record hc hp | exact .done hc hp | exact step_forward hc hp
          | exact step_eof hc hp | exact .leave hc hp
          | exact .moves_plain hc (by simp [hp]) rfl rfl rfl
              (fun _ h => .inr (Option.some.inj h).symm) nofun
          | exact .moves_plain hc (by simp [hp]) rfl rfl rfl (fun _ h => .inl (by rw [hp]; exact h))
              fun _ => rfl
          | exact .moves_plain hc (by simp [hp]) rfl rfl rfl nofun nofun
      · cases h
    · cases h

end World
end MoqGo.Relay
