import MoqGo.Lib.Runs
import MoqGo.Relay.Fanout.WriterSet

/-!
# The fan-out of a track (`runFanout`, `pkg/relay/handler_fanout.go`, `handler_duplicate.go`)

`World` is one track of the relay while it is fanned out: its entry, every writer set made so
far, and the inbound subgroup streams, called *contributors*, each at some point of `runFanout`.
An `Action` is one step that some lock makes atomic:

* `AcquireSubgroup`, then, for the contributor that made the set, `CopyDownstreamWithGen`,
  `LowestForwarded` and the opening of the first writers;
* for each Object, `headerRead`, then `ClaimDelivered`, then either `forward`, under the set's
  lock with `admitAgedOut`, or the recording of a redundant copy and `doneReading`;
* at the end, `SubgroupEnded` after a FIN, and the teardown;
* a subscriber's registration, a writer's pass over one Object and its end, and the calls that
  datagrams of the track make on the ledger.

A run is any sequence of them, so a contributor may stop for any time between two. What the
peers, the clock, the transport and the subscriptions decide is an argument of the action.

The last fields of `World` are written and never read: they record, for the theorems, which
Objects were claimed fresh, which reached `forward`, whose headers were read, when each
subscriber was registered and what was handed to each writer.
-/

namespace MoqGo.Relay

open Message

/-! ## Duplicates -/

/-- What `checkDuplicate` names in its error. -/
inductive DuplicateField
  | deliveryMode
  | subgroupID
  | priority
  | payload
  | immutableProperties
deriving DecidableEq, Repr

def DuplicateField.name : DuplicateField → String
  | .deliveryMode => "Delivery Mode"
  | .subgroupID => "Subgroup ID"
  | .priority => "Priority"
  | .payload => "Payload"
  | .immutableProperties => "Immutable Properties"

/-- `sameImmutableProperties`: byte for byte, or neither has any. -/
def sameImmutableProperties (a b : List UInt8) : Bool :=
  immutableProperties a == immutableProperties b

/-- `checkDuplicate`: how `dup` differs from the first copy, which is then removed. -/
def checkDuplicate (c : ObjectCache) (now : Nat) (dup : CachedObject) :
    ObjectCache × Option DuplicateField :=
  match c.get now dup.loc with
  | none => (c, none)
  | some first =>
    if first.isRangeMarker then (c, none)
    else
      let field :=
        if first.forwardingPref ≠ dup.forwardingPref then some .deliveryMode
        else if first.forwardingPref = .subgroup ∧ first.subgroupID ≠ dup.subgroupID then
          some .subgroupID
        else if first.publisherPriority ≠ dup.publisherPriority then some .priority
        else if first.status ≠ objectStatusNormal ∨ dup.status ≠ objectStatusNormal then none
        else if first.payload ≠ dup.payload then some .payload
        else if !sameImmutableProperties first.properties dup.properties then
          some .immutableProperties
        else none
      match field with
      | some f => (c.delete dup.loc, some f)
      | none => (c, none)

/-! ## Contributors -/

abbrev ContribID := Nat
abbrev SetID := Nat

/-- What `headerRead` returned: the opened count `forward` is limited to, and, for the record,
    how many headers had been read when the Object's note was made. -/
structure Heard where
  count : Nat
  noted : Nat
deriving DecidableEq, Repr, Inhabited

/-- Where a contributor stands in `runFanout`. -/
inductive Phase
  /-- It made the set. -/
  | created
  /-- `CopyDownstreamWithGen` returned. -/
  | copied (subs : List SubID) (gen : Nat)
  /-- `LowestForwarded` returned. -/
  | seeding (subs : List SubID) (gen : Nat) (lowest : Option UInt64)
  /-- At the head of the loop. -/
  | loop
  /-- `headerRead` returned; the payload is being read. -/
  | reading (obj : SubgroupObject) (heard : Heard)
  /-- `ClaimDelivered` returned `ClaimRedundant`. -/
  | redundant (obj : SubgroupObject)
  /-- `checkDuplicate` found no difference. -/
  | recording (obj : SubgroupObject)
  /-- Before `done`, and then the head of the loop or its end. -/
  | dropping (leaves : Bool)
  /-- `ClaimDelivered` returned `claim`. -/
  | claimed (claim : Claim) (obj : SubgroupObject) (heard : Heard)
  /-- Before the teardown. -/
  | ended
  | left
deriving DecidableEq, Repr

/-- The locals of `runFanout`. `objectID` and `havePrev` are the inbound stream's; `seq` is
    `pos.seq`. -/
structure Contributor extends Cover where
  hdr : SubgroupHeader
  set : SetID
  phase : Phase
  maxCacheDuration : Option Nat := none
  objectID : UInt64 := 0
  havePrev : Bool := false
  firstObj : Bool := true
  isTrueFirst : Bool := false
  last : Option SubgroupObject := none
  seq : Nat := 0
  terminalSeen : Bool := false
  covers := !hdr.replayingSubgroup
  inboundReset : Bool := false
  inboundResetCode : StreamResetCode := .cancelled
deriving DecidableEq, Repr

/-- The Subgroup a header names. -/
def headerKey (hdr : SubgroupHeader) : SubgroupKey := ⟨hdr.groupID, hdr.subgroupID⟩

namespace Contributor

def key (ct : Contributor) : SubgroupKey := headerKey ct.hdr

/-- The Object the ledger is asked about. -/
def info (ct : Contributor) (obj : SubgroupObject) : ObjectInfo where
  group := ct.hdr.groupID
  object := ct.objectID
  subgroup := ct.hdr.subgroupID
  priority := ct.hdr.publisherPriority
  status := obj.objectStatus
  gaps := objectPriorGaps obj.properties

/-- The Object as it is cached. -/
def cached (ct : Contributor) (obj : SubgroupObject) : CachedObject where
  groupID := ct.hdr.groupID
  objectID := ct.objectID
  subgroupID := ct.hdr.subgroupID
  publisherPriority := ct.hdr.publisherPriority
  forwardingPref := .subgroup
  status := obj.objectStatus
  properties := obj.properties
  payload := obj.payload
  maxCacheDuration := ct.maxCacheDuration.getD 0
  hasMaxCacheDuration := ct.maxCacheDuration.isSome

/-- The locals `runFanout` sets for a whole Object read, before it claims it. -/
def readObject (ct : Contributor) (obj : SubgroupObject) : Contributor :=
  { ct with
    last := some obj
    isTrueFirst := ct.firstObj && !ct.hdr.replayingSubgroup
    firstObj := false
    seq := ct.seq + 1
    toCover := ct.read ct.objectID
    terminalSeen := obj.isTerminal }

/-- `runFanout`'s `malformed`, and what follows it. -/
def malformed (ct : Contributor) (phase : Phase) : Contributor :=
  { ct with inboundReset := true, inboundResetCode := .malformedTrack, phase := phase }

end Contributor

/-! ## The world -/

/-- One track being fanned out. -/
structure World where
  cfg : WriterSet.Config
  entry : TrackEntry SetID
  sets : SetID → WriterSet := fun _ => { hdr := {} }
  nextSet : SetID := 0
  contribs : ContribID → Option Contributor := fun _ => none
  freshClaimed : List (SubgroupKey × UInt64) := []
  forwards : List (SubgroupKey × UInt64) := []
  headers : List (SubgroupKey × UInt64) := []
  noted : SetID → UInt64 → Nat := fun _ _ => 0
  registered : SubID → Nat := fun _ => 0
  handed : SetID → SubID → List (SubgroupKey × UInt64) := fun _ _ => []

inductive Action
  | acquire (c : ContribID) (hdr : SubgroupHeader) (maxCacheDuration : Option Nat)
  | copyDownstream (c : ContribID)
  | lowestForwarded (c : ContribID)
  | openInitial (c : ContribID) (established : SubID → Bool)
  /-- The header of Object `id` was read. -/
  | header (c : ContribID) (id : UInt64) (obj : SubgroupObject) (established : SubID → Bool)
  /-- The payload was not read to its end. -/
  | abandon (c : ContribID)
  /-- The payload was read, and the Object is claimed. -/
  | claim (c : ContribID) (now : Nat)
  | check (c : ContribID) (now : Nat)
  | record (c : ContribID) (now : Nat)
  | done (c : ContribID)
  | forward (c : ContribID) (now : Nat) (verdict : SubID → ForwardVerdict)
  /-- The stream ended with a FIN. -/
  | eof (c : ContribID) (now : Nat)
  /-- The stream ended otherwise. -/
  | fail (c : ContribID) (malformed : Bool)
  | leave (c : ContribID) (groupOutOfRange : SubID → Bool)
  | register (sub : SubID)
  /-- A datagram's call on the ledger. -/
  | datagram (now : Nat) (call : Ledger.Call)
  /-- Other writes to the cache. -/
  | cache (cache : ObjectCache)
  /-- A writer takes the next Object from its inbox. -/
  | dequeue (i : SetID) (sub : SubID) (fate : Fate)
  /-- A writer ends. -/
  | finish (i : SetID) (sub : SubID)

namespace World

instance lawfulBEq : LawfulBEq (SubgroupKey × UInt64) := inferInstance

def putContrib (W : World) (c : ContribID) (ct : Contributor) : World :=
  { W with contribs := Function.update W.contribs c (some ct) }

def putSet (W : World) (i : SetID) (s : WriterSet) : World :=
  { W with sets := Function.update W.sets i s }

/-- `AcquireSubgroup`. -/
def acquire (W : World) (c : ContribID) (hdr : SubgroupHeader) (maxCacheDuration : Option Nat) :
    World :=
  match W.entry.acquireSubgroup (headerKey hdr) W.nextSet with
  | (entry, i, true) =>
    { W.putContrib c
        { hdr := hdr, set := i, phase := .created, maxCacheDuration := maxCacheDuration } with
      entry := entry
      sets := Function.update W.sets i { hdr := hdr }
      nextSet := W.nextSet + 1 }
  | (entry, i, false) =>
    { W.putContrib c
        { hdr := hdr, set := i, phase := .loop, maxCacheDuration := maxCacheDuration } with
      entry := entry }

/-- `headerRead`. -/
def headerRead (W : World) (c : ContribID) (ct : Contributor) (id : UInt64) (obj : SubgroupObject)
    (established : SubID → Bool) : World :=
  let s := W.sets ct.set
  let (entry, newSubs, gen) := W.entry.updateLargestAndDetectNew ⟨ct.hdr.groupID, id⟩
    (fun sub => (s.writers sub).isSome) s.gen
  let s := newSubs.foldl (fun s sub => s.joinWriter W.cfg established sub) { s with gen := gen }
  let noted :=
    if s.reading.any fun r => r.id = id then W.noted
    else Function.update W.noted ct.set
      (Function.update (W.noted ct.set) id W.headers.length)
  let (s, heard) := s.noteHeader id s.opened
  { (W.putSet ct.set s).putContrib c
      { ct with
        objectID := id
        havePrev := true
        phase := .reading obj ⟨heard, noted ct.set id⟩ } with
    entry := entry
    headers := W.headers ++ [(ct.key, id)]
    noted := noted }

/-- The payload was read: `runFanout` up to and with `ClaimDelivered`. -/
def claim (W : World) (c : ContribID) (ct : Contributor) (obj : SubgroupObject) (heard : Heard)
    (now : Nat) : World :=
  if ct.terminalSeen then
    W.putContrib c ({ ct with last := some obj }.malformed (.dropping true))
  else
    let ct := ct.readObject obj
    let (entry, claim, err) := W.entry.claimDelivered now (ct.info obj)
    let W := { W with entry := entry }
    match err, claim with
    | some _, _ => W.putContrib c (ct.malformed (.dropping true))
    | none, .redundant => W.putContrib c { ct with phase := .redundant obj }
    | none, .agedOut => W.putContrib c { ct with phase := .claimed .agedOut obj heard }
    | none, .fresh =>
      { W.putContrib c { ct with phase := .claimed .fresh obj heard } with
        freshClaimed := (ct.key, ct.objectID) :: W.freshClaimed }

/-- `recordRedundant`'s first half. -/
def check (W : World) (c : ContribID) (ct : Contributor) (obj : SubgroupObject) (now : Nat) :
    World :=
  let (cache, err) := checkDuplicate W.entry.cache now { ct.cached obj with
    maxCacheDuration := 0, hasMaxCacheDuration := false }
  let W := { W with entry := { W.entry with cache := cache } }
  match err with
  | some _ => W.putContrib c (ct.malformed (.dropping true))
  | none => W.putContrib c { ct with phase := .recording obj }

/-- `recordRedundant`'s second half. -/
def record (W : World) (c : ContribID) (ct : Contributor) (obj : SubgroupObject) (now : Nat) :
    World :=
  let (entry, reply) := W.entry.call now (.recordDuplicate (ct.info obj))
  let W := { W with entry := entry }
  match reply.err with
  | some _ => W.putContrib c (ct.malformed (.dropping true))
  | none => W.putContrib c { ct with phase := .dropping false }

/-- `runFanout` past `ClaimDelivered`, under the set's lock. -/
def forward (W : World) (c : ContribID) (ct : Contributor) (claim : Claim) (obj : SubgroupObject)
    (heard : Heard) (now : Nat) (verdict : SubID → ForwardVerdict) : World :=
  let W := W.putContrib c { ct with phase := .loop }
  let s := (W.sets ct.set).doneReading ct.objectID
  match s.admitAgedOut claim verdict ct.objectID with
  | (s, false) => W.putSet ct.set s
  | (s, true) =>
    let cache := W.entry.cache.put now (ct.cached obj)
    { W.putSet ct.set
        (s.forward verdict ⟨c, ct.seq⟩ ct.objectID obj ct.isTrueFirst heard.count) with
      entry := { W.entry with cache := cache }
      forwards := (ct.key, ct.objectID) :: W.forwards
      handed := Function.update W.handed ct.set fun sub =>
        if s.hands verdict heard.count sub then
          W.handed ct.set sub ++ [(ct.key, ct.objectID)]
        else W.handed ct.set sub }

/-- `inboundEnded`, for a FIN. -/
def eof (W : World) (c : ContribID) (ct : Contributor) (now : Nat) : World :=
  match ct.last with
  | none => W.putContrib c { ct with phase := .ended }
  | some obj =>
    let (entry, reply) := W.entry.call now
      (.subgroupEnded { ct.info obj with gaps := {} } ct.hdr.endOfGroup)
    let W := { W with entry := entry }
    match reply.err with
    | some _ => W.putContrib c (ct.malformed .ended)
    | none => W.putContrib c { ct with phase := .ended }

/-- `inboundEnded`, for another error. -/
def fail (W : World) (c : ContribID) (ct : Contributor) (malformed : Bool) : World :=
  W.putContrib c
    { ct with
      inboundReset := true
      inboundResetCode := if malformed then .malformedTrack else .cancelled
      phase := .ended }

/-- The teardown. -/
def leave (W : World) (c : ContribID) (ct : Contributor) (groupOutOfRange : SubID → Bool) :
    World :=
  let s := (W.sets ct.set).leave ct.inboundReset ct.inboundResetCode ct.covers ct.coverFrom
  let (entry, last) := W.entry.releaseSubgroup ct.key
  { (W.putContrib c { ct with phase := .left }).putSet ct.set
      (if last then s.closeWriters groupOutOfRange else s) with
    entry := entry }

/-- A writer of set `i` becomes `w`. -/
def putWriter (W : World) (i : SetID) (sub : SubID) (w : Writer) : World :=
  W.putSet i { W.sets i with writers := Function.update (W.sets i).writers sub (some (some w)) }

def datagramCall : Ledger.Call → Bool
  | .claimDelivered o | .recordDuplicate o => o.datagram
  | .subgroupEnded _ _ => false

/-- One step. -/
def step (W : World) : Action → Option World
  | .acquire c hdr maxCacheDuration =>
    match W.contribs c with
    | none => some (W.acquire c hdr maxCacheDuration)
    | some _ => none
  | .copyDownstream c =>
    match W.contribs c with
    | some ct =>
      match ct.phase with
      | .created =>
        let (subs, gen) := W.entry.copyDownstreamWithGen
        some (W.putContrib c { ct with phase := .copied subs gen })
      | _ => none
    | none => none
  | .lowestForwarded c =>
    match W.contribs c with
    | some ct =>
      match ct.phase with
      | .copied subs gen =>
        let lowest := W.entry.ledger.lowestForwarded ct.hdr.groupID ct.hdr.subgroupID
        some (W.putContrib c { ct with phase := .seeding subs gen lowest })
      | _ => none
    | none => none
  | .openInitial c established =>
    match W.contribs c with
    | some ct =>
      match ct.phase with
      | .seeding subs gen lowest =>
        some ((W.putContrib c { ct with phase := .loop }).putSet ct.set
          ((W.sets ct.set).openInitial W.cfg established subs gen lowest))
      | _ => none
    | none => none
  | .header c id obj established =>
    match W.contribs c with
    | some ct =>
      match ct.phase with
      | .loop =>
        -- §11.3.1: the IDs of a stream ascend
        if ct.havePrev = true → ct.objectID < id then some (W.headerRead c ct id obj established)
        else none
      | _ => none
    | none => none
  | .abandon c =>
    match W.contribs c with
    | some ct =>
      match ct.phase with
      | .reading _ _ =>
        some (W.putContrib c { ct with inboundReset := true, phase := .dropping true })
      | _ => none
    | none => none
  | .claim c now =>
    match W.contribs c with
    | some ct =>
      match ct.phase with
      | .reading obj heard => some (W.claim c ct obj heard now)
      | _ => none
    | none => none
  | .check c now =>
    match W.contribs c with
    | some ct =>
      match ct.phase with
      | .redundant obj => some (W.check c ct obj now)
      | _ => none
    | none => none
  | .record c now =>
    match W.contribs c with
    | some ct =>
      match ct.phase with
      | .recording obj => some (W.record c ct obj now)
      | _ => none
    | none => none
  | .done c =>
    match W.contribs c with
    | some ct =>
      match ct.phase with
      | .dropping leaves =>
        some ((W.putContrib c { ct with phase := if leaves then .ended else .loop }).putSet ct.set
          ((W.sets ct.set).doneReading ct.objectID))
      | _ => none
    | none => none
  | .forward c now verdict =>
    match W.contribs c with
    | some ct =>
      match ct.phase with
      | .claimed claim obj heard => some (W.forward c ct claim obj heard now verdict)
      | _ => none
    | none => none
  | .eof c now =>
    match W.contribs c with
    | some ct =>
      match ct.phase with
      | .loop => some (W.eof c ct now)
      | _ => none
    | none => none
  | .fail c malformed =>
    match W.contribs c with
    | some ct =>
      match ct.phase with
      | .loop => some (W.fail c ct malformed)
      | _ => none
    | none => none
  | .leave c groupOutOfRange =>
    match W.contribs c with
    | some ct =>
      match ct.phase with
      | .ended => some (W.leave c ct groupOutOfRange)
      | _ => none
    | none => none
  | .register sub =>
    if sub ∈ W.entry.downstream then none
    else
      some { W with
        entry := W.entry.addDownstreamSnapshotLargest sub
        registered := Function.update W.registered sub W.headers.length }
  | .datagram now call =>
    if datagramCall call then some { W with entry := (W.entry.call now call).1 } else none
  | .cache cache => some { W with entry := { W.entry with cache := cache } }
  | .dequeue i sub fate =>
    match (W.sets i).writers sub with
    | some (some w) =>
      if w.finished || w.lagExceeded then none
      else
        match w.inbox with
        | fwd :: rest => some (W.putWriter i sub ({ w with inbox := rest }.handle fwd fate))
        | [] => none
    | _ => none
  | .finish i sub =>
    match (W.sets i).writers sub with
    | some (some w) =>
      if !w.finished && (w.lagExceeded || w.closeCalled && w.inbox.isEmpty) then
        some (W.putWriter i sub w.finish)
      else none
    | _ => none

/-- The start: a new entry, and nobody there. -/
def init (cfg : WriterSet.Config) (cache : ObjectCache) : World :=
  { cfg := cfg, entry := { cache := cache } }

/-! ## Stretches of runs -/

/-- Contributor `c` makes the set of the Subgroup `hdr` names, and opens its first writers. -/
def opening (c : ContribID) (hdr : SubgroupHeader) : List Action :=
  [.acquire c hdr none, .copyDownstream c, .lowestForwarded c, .openInitial c fun _ => true]

/-- Contributor `c` reads Object `id` and offers it to every subscriber. -/
def reading (c : ContribID) (id : UInt64) : List Action :=
  [.header c id {} fun _ => true, .claim c 0, .forward c 0 fun _ => .forward]

/-- Contributor `c` reads Object `id`, which another has claimed. -/
def rereading (c : ContribID) (id : UInt64) : List Action :=
  [.header c id {} fun _ => true, .claim c 0, .check c 0, .record c 0, .done c]

end World
end MoqGo.Relay
