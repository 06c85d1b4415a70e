import MoqGo.Relay.Fanout.Writer
import MoqGo.Relay.TrackEntry

/-!
# The writers of one Subgroup (`subgroupWriterSet`, `pkg/relay/handler_fanout.go`)

The inbound streams of one Subgroup share a set of writers, one for each subscriber, and a few
facts about what went through them:

* `lowest`, `runLo`, `runHi`, `unbroken`: a summary of the Object IDs forwarded (`claimFirst`);
* `cleanFrom`, `resetCode`: how the streams that left had ended (`leave`), from which the last
  one concludes whether the outbound streams end with a FIN (`outcome`);
* `reading`: the Objects whose headers were read and whose payloads were not (`noteHeader`), so
  that an Object goes only to the writers open when its header was first read.

Every operation is one that its caller makes with the set's lock held. Whether a subscription
is established, and what it says to an Object (`ForwardDecision`), are arguments.
-/

namespace MoqGo.Relay

open Message

/-- `objHeard`: an Object contributors are reading. -/
structure ObjHeard where
  id : UInt64
  heard : Nat
  readers : Nat
deriving DecidableEq, Repr, Inhabited

/-- What an inbound stream that ends cleanly has delivered, `runFanout`'s `covers` and `coverFrom`:
    the Subgroup from an Object on, or, for a replay that read nothing, no part of it. -/
structure Cover where
  covers : Bool
  coverFrom : UInt64 := 0
deriving DecidableEq, Repr

/-- An Object was read whole. -/
def Cover.read (c : Cover) (objectID : UInt64) : Cover :=
  ⟨true, if c.covers then c.coverFrom else objectID⟩

/-- `subgroupWriterSet`. `writers` is the map of the source: `some none` is its nil writer, a
    subscription that was not established when it was looked at. -/
structure WriterSet where
  hdr : SubgroupHeader
  writers : SubID → Option (Option Writer) := fun _ => none
  gen : Nat := 0
  opened : Nat := 0
  reading : List ObjHeard := []
  lowest : UInt64 := 0
  forwarded : Bool := false
  runLo : UInt64 := 0
  runHi : UInt64 := 0
  hasRun : Bool := false
  unbroken : Bool := false
  cleanFrom : UInt64 := 0
  sawClean : Bool := false
  resetCode : StreamResetCode := .internalError
deriving Inhabited

namespace WriterSet

/-! ## What was forwarded -/

/-- `claimFirst`, its effect on the lowest Object ID. -/
def lower (s : WriterSet) (objectID : UInt64) : WriterSet :=
  if !s.forwarded || objectID < s.lowest then { s with lowest := objectID, forwarded := true }
  else s

/-- `claimFirst`, its effect on the run. -/
def extendRun (s : WriterSet) (objectID : UInt64) : WriterSet :=
  if !s.hasRun then
    { s with runLo := objectID, runHi := objectID, hasRun := true, unbroken := true }
  else if s.runHi < maxUint64 && objectID == s.runHi + 1 then { s with runHi := objectID }
  else if 0 < s.runLo && objectID == s.runLo - 1 then { s with runLo := objectID }
  else
    { s with runLo := min s.runLo objectID, runHi := max s.runHi objectID, unbroken := false }

/-- `claimFirst`: the Object is forwarded; reports whether it starts the Subgroup. -/
def claimFirst (s : WriterSet) (objectID : UInt64) (claimed : Bool) : WriterSet × Bool :=
  let lowest := !s.forwarded || decide (objectID < s.lowest)
  ((s.lower objectID).extendRun objectID, claimed && lowest)

/-- `leave`: how one contributor ended. -/
def leave (s : WriterSet) (reset : Bool) (code : StreamResetCode) (covers : Bool)
    (coverFrom : UInt64) : WriterSet :=
  if reset then { s with resetCode := code }
  else if covers && (!s.sawClean || coverFrom < s.cleanFrom) then
    { s with cleanFrom := coverFrom, sawClean := true }
  else s

/-- `outcome`: whether the merged streams end with a reset, and with which code. -/
def outcome (s : WriterSet) : Bool × StreamResetCode :=
  if !s.sawClean then (true, s.resetCode)
  else if s.cleanFrom ≤ s.lowest ||
      s.unbroken && s.runLo == s.lowest && s.cleanFrom - 1 ≤ s.runHi then (false, .internalError)
  else (true, .cancelled)

/-! ## Its writers -/

/-- `f` is applied to every writer that is not nil. -/
def mapWriters (s : WriterSet) (f : SubID → Writer → Writer) : WriterSet :=
  { s with writers := fun sub => (s.writers sub).map (Option.map (f sub)) }

/-- What `openWriterForSub` makes of a handler's configuration: the send queue's size and the
    drop cap. -/
structure Config where
  sendQueueSize : Nat
  maxDropsBeforeReset : Nat
deriving DecidableEq, Repr, Inhabited

/-- `openWriterForSub`. -/
def openWriterForSub (s : WriterSet) (cfg : Config) (established : SubID → Bool) (sub : SubID) :
    WriterSet :=
  if (s.writers sub).isSome then s
  else
    let w : Option Writer :=
      if established sub then
        some { hdr := s.hdr, inboxCap := cfg.sendQueueSize,
               maxDropsBeforeReset := cfg.maxDropsBeforeReset }
      else none
    { s with writers := Function.update s.writers sub (some w) }

/-- `headerRead`'s loop body: a joiner's writer, numbered. -/
def joinWriter (s : WriterSet) (cfg : Config) (established : SubID → Bool) (sub : SubID) :
    WriterSet :=
  let s := s.openWriterForSub cfg established sub
  match s.writers sub with
  | some (some w) =>
    { s with
      opened := s.opened + 1
      writers := Function.update s.writers sub (some (some { w with seq := s.opened + 1 })) }
  | _ => s

/-- `runFanout`'s set creation, under the set's lock: the downstream generation, the lowest
    Object the ledger saw forwarded, and the writers of the subscribers so far. -/
def openInitial (s : WriterSet) (cfg : Config) (established : SubID → Bool) (subs : List SubID)
    (gen : Nat) (lowest : Option UInt64) : WriterSet :=
  let s := { s with gen := gen }
  let s := match lowest with
    | some lowest => s.lower lowest
    | none => s
  subs.foldl (fun s sub => s.openWriterForSub cfg established sub) s

/-! ## What is being read -/

/-- The first note of Object `id`, replaced or removed. -/
def updateNote (id : UInt64) (f : ObjHeard → Option ObjHeard) : List ObjHeard → List ObjHeard
  | [] => []
  | r :: rest => if r.id = id then (f r).toList ++ rest else r :: updateNote id f rest

/-- `noteHeader`: the opened count at the first header read for the Object. -/
def noteHeader (s : WriterSet) (id : UInt64) (heard : Nat) : WriterSet × Nat :=
  match s.reading.find? fun r => r.id = id with
  | some r =>
    ({ s with
        reading := updateNote id (fun r => some { r with readers := r.readers + 1 }) s.reading },
      r.heard)
  | none => ({ s with reading := s.reading ++ [⟨id, heard, 1⟩] }, heard)

/-- `doneReading`. -/
def doneReading (s : WriterSet) (id : UInt64) : WriterSet :=
  { s with
    reading := updateNote id
      (fun r => if r.readers = 1 then none else some { r with readers := r.readers - 1 })
      s.reading }

/-! ## Forwarding -/

/-- `admitAgedOut`: whether an Object `ClaimDelivered` returned as `claim` is forwarded. -/
def admitAgedOut (s : WriterSet) (claim : Claim) (verdict : SubID → ForwardVerdict)
    (objectID : UInt64) : WriterSet × Bool :=
  if claim ≠ .agedOut || s.hasRun && s.runHi < objectID then (s, true)
  else if s.hasRun && (objectID == s.runLo || objectID == s.runHi ||
      s.unbroken && s.runLo < objectID && objectID < s.runHi) then (s, false)
  else
    (s.mapWriters fun sub w =>
      if verdict sub = .forward then w.markIncomplete .internalError
      else w.skip (verdict sub) objectID, false)

/-- What `forward` does with one writer: nothing, if it was opened after the Object's header
    was read. -/
def forwardTo (w : Writer) (verdict : ForwardVerdict) (pos : InboundPos) (objectID : UInt64)
    (obj : SubgroupObject) (first : Bool) (heard : Nat) : Writer :=
  if heard < w.seq then w
  else
    let (w, take, follows) := w.admitObject verdict pos objectID
    if take then w.publish { obj := obj, absID := objectID, first := first, follows := follows }
    else w

/-- `forward` hands the Object to the subscriber's writer. -/
def hands (s : WriterSet) (verdict : SubID → ForwardVerdict) (heard : Nat) (sub : SubID) : Bool :=
  match s.writers sub with
  | some (some w) => decide (w.seq ≤ heard) && decide (verdict sub = .forward)
  | _ => false

/-- `forward`. -/
def forward (s : WriterSet) (verdict : SubID → ForwardVerdict) (pos : InboundPos)
    (objectID : UInt64) (obj : SubgroupObject) (claimed : Bool) (heard : Nat) : WriterSet :=
  let (s, first) := s.claimFirst objectID claimed
  s.mapWriters fun sub w => forwardTo w (verdict sub) pos objectID obj first heard

/-- `runFanout` past `ClaimDelivered` asks the subscription about the Object: in `admitAgedOut`
    or in `forward`. -/
def asks (s : WriterSet) (claim : Claim) (objectID : UInt64) (heard : Nat)
    (sub : SubID) : Bool :=
  match s.writers sub with
  | some (some w) =>
    if claim ≠ .agedOut || s.hasRun && s.runHi < objectID then decide (w.seq ≤ heard)
    else !(s.hasRun && (objectID == s.runLo || objectID == s.runHi ||
      s.unbroken && s.runLo < objectID && objectID < s.runHi))
  | _ => false

/-- The last contributor's teardown: the writers are closed. §11.3.2: a Group outside the
    subscription's range is reset. -/
def closeWriters (s : WriterSet) (groupOutOfRange : SubID → Bool) : WriterSet :=
  let (reset, code) := s.outcome
  s.mapWriters fun sub w =>
    if !reset && groupOutOfRange sub then w.close true .cancelled else w.close reset code

/-! ## What its writers and readers leave alone -/

def facts (s : WriterSet) : WriterSet :=
  { s with writers := fun _ => none, gen := 0, opened := 0, reading := [] }

theorem openWriterForSub_facts (s : WriterSet) (cfg : Config) (established : SubID → Bool)
    (sub : SubID) : (s.openWriterForSub cfg established sub).facts = s.facts := by
  unfold openWriterForSub
  split <;> rfl

theorem joinWriter_facts (s : WriterSet) (cfg : Config) (established : SubID → Bool)
    (sub : SubID) : (s.joinWriter cfg established sub).facts = s.facts := by
  rw [← s.openWriterForSub_facts cfg established sub]
  unfold joinWriter
  simp only
  split <;> rfl

theorem foldl_facts {f : WriterSet → SubID → WriterSet} (hf : ∀ s sub, (f s sub).facts = s.facts)
    (subs : List SubID) (s : WriterSet) : (subs.foldl f s).facts = s.facts := by
  induction subs generalizing s with
  | nil => rfl
  | cons sub subs ih => exact (ih (f s sub)).trans (hf s sub)

theorem openInitial_facts (s : WriterSet) (cfg : Config) (established : SubID → Bool)
    (subs : List SubID) (gen : Nat) (lowest : Option UInt64) :
    (s.openInitial cfg established subs gen lowest).facts = (lowest.elim s s.lower).facts := by
  unfold openInitial
  rw [foldl_facts fun s sub => s.openWriterForSub_facts cfg established sub]
  cases lowest with
  | none => rfl
  | some lowest =>
    simp only [lower, Option.elim_some]
    split_ifs <;> rfl

theorem noteHeader_facts (s : WriterSet) (id : UInt64) (heard : Nat) :
    (s.noteHeader id heard).1.facts = s.facts := by
  unfold noteHeader
  split <;> rfl

theorem headerRead_facts (s : WriterSet) (cfg : Config) (established : SubID → Bool)
    (subs : List SubID) (gen : Nat) (id : UInt64) (heard : Nat) :
    ((subs.foldl (fun s sub => joinWriter s cfg established sub) { s with gen := gen }).noteHeader
      id heard).1.facts = s.facts := by
  rw [noteHeader_facts, foldl_facts fun s sub => s.joinWriter_facts cfg established sub]
  rfl

theorem admitAgedOut_facts {s s' : WriterSet} {claim : Claim} {verdict : SubID → ForwardVerdict}
    {objectID : UInt64} {ok : Bool} (h : s.admitAgedOut claim verdict objectID = (s', ok)) :
    s'.facts = s.facts := by
  unfold admitAgedOut at h
  split_ifs at h <;> cases h <;> rfl

end WriterSet
end MoqGo.Relay
