import MoqGo.Relay.Fanout.Finish

/-!
# What a writer was offered

`Traced` is the fan-out with a history beside it: for each writer, every Object its subscription
was asked about, in order, with the answer. `runFanout` asks in two places, `forward` and
`admitAgedOut`, and an `Offer` says in which. The history is written and never read.

`WriterInv` adds an offer to what a property of a writer and this history has to survive.
`WriterInv.holds` is the rule: it then holds of every writer in every run.
-/

namespace MoqGo.Relay

open Message

/-- An Object a subscription was asked about. -/
structure Offer where
  /-- Where it was read: the inbound stream, and how many Objects had been read from it. -/
  pos : InboundPos
  id : UInt64
  /-- `ForwardDecision`'s answer. -/
  verdict : ForwardVerdict
  /-- `admitAgedOut` asked, and the Object is dropped whatever the answer. -/
  agedOut : Bool
deriving DecidableEq, Repr

def Offer.admitted (o : Offer) : Bool := !o.agedOut && o.verdict = .forward

/-- What an offer does to the writer. -/
def Writer.offered (w : Writer) (o : Offer) (obj : SubgroupObject) (first : Bool) : Writer :=
  if o.agedOut then
    if o.verdict = .forward then w.markIncomplete .internalError else w.skip o.verdict o.id
  else
    let (w, take, follows) := w.admitObject o.verdict o.pos o.id
    if take then w.publish { obj := obj, absID := o.id, first := first, follows := follows }
    else w

namespace Writer

theorem HandleStep.outside {w w' : Writer} {fwd : FwdObject} {fate : Fate}
    (hs : HandleStep w fwd fate w') :
    w'.lastPos = w.lastPos ∧ (w.closed = true → w'.closed = true) := by
  have hready : ∀ {w₁}, Ready w fwd w₁ → w₁.lastPos = w.lastPos ∧ w₁.closed = w.closed := by
    intro w₁ h
    cases h <;> exact ⟨rfl, rfl⟩
  cases hs with
  | lagging | drained => exact ⟨rfl, id⟩
  | openFailed => exact ⟨rfl, fun _ => rfl⟩
  | @expired w₁ _ _ h _ =>
    obtain ⟨hpos, hclosed⟩ := hready h
    cases hw : w₁.hasWritten with
    | true =>
      rw [dropExpired_written hw]
      exact ⟨hpos, hclosed.trans⟩
    | false =>
      rw [dropExpired_fresh hw]
      exact ⟨hpos, hclosed.trans⟩
  | @writes w₁ _ _ h _ =>
    obtain ⟨hpos, hclosed⟩ := hready h
    cases fate.write with
    | ok => exact ⟨hpos, hclosed.trans⟩
    | deliveryTimeout => exact ⟨hpos, fun _ => rfl⟩
    | failed => exact ⟨hpos, fun _ => rfl⟩

theorem finish_outside (w : Writer) :
    w.finish.lastPos = w.lastPos ∧ (w.closed = true → w.finish.closed = true) := by
  show w.finishStream.lastPos = w.lastPos ∧ (w.closed = true → w.finishStream.closed = true)
  unfold finishStream
  split_ifs <;> first | exact ⟨rfl, id⟩ | exact ⟨rfl, fun _ => rfl⟩

theorem publish_spec (w : Writer) (fwd : FwdObject) :
    (w.publish fwd).streamState = w.streamState ∧ (w.publish fwd).hdr = w.hdr ∧
      ((w.publish fwd).inbox = w.inbox ∨ (w.publish fwd).inbox = w.inbox ++ [fwd]) := by
  unfold publish
  split_ifs with hclosed hroom
  · exact ⟨rfl, rfl, .inl rfl⟩
  · exact ⟨rfl, rfl, .inr rfl⟩
  · have hunmarked : (({ w with lastPos := none, drops := w.drops + 1 }.markIncomplete
        .excessiveLoad).close true .excessiveLoad).unmarked =
          { w with lastPos := none, drops := w.drops + 1 }.unmarked := close_unmarked _ _ _
    simp only
    split_ifs
    · exact ⟨(congrArg streamState hunmarked :), (congrArg hdr hunmarked :),
        .inl (congrArg inbox hunmarked :)⟩
    · exact ⟨rfl, rfl, .inl rfl⟩

/-- **An offer** leaves the writer's streams alone, and puts the Object in its inbox or not. -/
theorem offered_spec (w : Writer) (o : Offer) (obj : SubgroupObject) (first : Bool) :
    (w.offered o obj first).streamState = w.streamState ∧ (w.offered o obj first).hdr = w.hdr ∧
      ((w.offered o obj first).inbox = w.inbox ∨ ∃ follows, (w.offered o obj first).inbox =
        w.inbox ++ [{ obj := obj, absID := o.id, first := first, follows := follows }]) := by
  have hskip := w.skip_unmarked o.verdict o.id
  have hskipped : (w.skip o.verdict o.id).streamState = w.streamState ∧
      (w.skip o.verdict o.id).hdr = w.hdr ∧ (w.skip o.verdict o.id).inbox = w.inbox :=
    ⟨(congrArg streamState hskip :), (congrArg hdr hskip :), (congrArg inbox hskip :)⟩
  unfold offered
  split_ifs with haged hv
  · exact ⟨rfl, rfl, .inl rfl⟩
  · exact ⟨hskipped.1, hskipped.2.1, .inl hskipped.2.2⟩
  · by_cases hv : o.verdict = .forward
    · simp only [admitObject, hv, if_true]
      obtain ⟨hs, hhdr, hin⟩ := publish_spec
        { w with lastAdmitted := o.id, hasAdmitted := true, lastPos := some o.pos }
        { obj := obj, absID := o.id, first := first,
          follows := w.lastPos.any fun p => p.src == o.pos.src && p.seq + 1 == o.pos.seq }
      exact ⟨hs, hhdr, hin.imp_right fun hin => ⟨_, hin⟩⟩
    · simp only [admitObject, hv, if_false, Bool.false_eq_true]
      split_ifs <;> exact ⟨hskipped.1, hskipped.2.1, .inl hskipped.2.2⟩

end Writer

/-! ## The rule -/

/-- A property of a writer and its history that every operation keeps, an offer too. -/
structure WriterInv (P : Writer → List Offer → Prop → Prop) : Prop
    extends WriterKept (fun _ => P) (· = []) fun _ _ => True where
  offer : ∀ {w h} {live : Prop} o obj first, live → P w h live →
    P (w.offered o obj first) (h ++ [o]) live

/-! ## The writers of a set -/

namespace WriterSet

variable {P : Writer → List Offer → Prop → Prop} {s : WriterSet} {h : SubID → List Offer}
  {live : Prop} {sub : SubID} {claim : Claim} {objectID : UInt64} {verdict : SubID → ForwardVerdict}

/-- `admitAgedOut` lets the Object through to `forward`. -/
def passes (s : WriterSet) (claim : Claim) (objectID : UInt64) : Bool :=
  claim ≠ .agedOut || s.hasRun && s.runHi < objectID

/-- The history after the Object read at `pos` went through `admitAgedOut` and `forward`. -/
def afterOffer (s : WriterSet) (h : SubID → List Offer) (claim : Claim) (pos : InboundPos)
    (objectID : UInt64) (heard : Nat) (verdict : SubID → ForwardVerdict) (sub : SubID) :
    List Offer :=
  if s.asks claim objectID heard sub then
    h sub ++ [⟨pos, objectID, verdict sub, !s.passes claim objectID⟩]
  else h sub

theorem afterOffer_of_none {pos : InboundPos} {heard : Nat}
    (hnone : ∀ w, s.writers sub ≠ some (some w)) :
    s.afterOffer h claim pos objectID heard verdict sub = h sub := by
  rcases hw : s.writers sub with _ | _ | w
  · simp [afterOffer, asks, hw]
  · simp [afterOffer, asks, hw]
  · exact absurd hw (hnone w)

theorem Each.forward (hP : WriterInv P) (hl : live) (hs : s.Each (fun _ => P) (· = []) h live)
    (hpass : s.passes claim objectID = true) (verdict : SubID → ForwardVerdict) (pos : InboundPos)
    (obj : SubgroupObject) (claimed : Bool) (heard : Nat) :
    (s.forward verdict pos objectID obj claimed heard).Each (fun _ => P) (· = [])
      (s.afterOffer h claim pos objectID heard verdict) live := by
  have hboard := s.claimFirst_board objectID claimed
  have hwriters : ((s.lower objectID).extendRun objectID).writers = s.writers :=
    congrArg Prod.snd hboard
  refine Each.mapWriters (hs.of_board hboard) ?_ ?_
  · intro sub w hw hold
    rw [hwriters] at hw
    have hpass' : (decide (claim ≠ .agedOut) || s.hasRun && decide (s.runHi < objectID)) = true :=
      hpass
    simp only [afterOffer, asks, hw, hpass', if_true, decide_eq_true_eq, forwardTo, hpass,
      Bool.not_true]
    by_cases hseq : w.seq ≤ heard
    · rw [if_pos hseq, if_neg (Nat.not_lt.mpr hseq)]
      exact hP.offer ⟨pos, objectID, verdict sub, false⟩ obj _ hl hold
    · rw [if_neg hseq, if_pos (Nat.not_le.mp hseq)]
      exact hold
  · intro sub hnone hnil
    rw [hwriters] at hnone
    exact (afterOffer_of_none hnone).trans hnil

theorem Each.drops (hP : WriterInv P) (hl : live) (hs : s.Each (fun _ => P) (· = []) h live)
    {s' : WriterSet} (hadm : s.admitAgedOut claim verdict objectID = (s', false))
    (pos : InboundPos) (heard : Nat) :
    s'.Each (fun _ => P) (· = []) (s.afterOffer h claim pos objectID heard verdict) live := by
  unfold WriterSet.admitAgedOut at hadm
  split_ifs at hadm with hpass hknown
  · cases hadm
  · cases hadm
    -- a redundant copy: nobody is asked
    have hsame : s.afterOffer h claim pos objectID heard verdict = h := by
      funext sub
      unfold afterOffer asks
      rcases hw : s.writers sub with _ | _ | w
      · rfl
      · rfl
      · simp only [hpass, hknown, if_false, Bool.not_true, Bool.false_eq_true]
    rw [hsame]
    exact hs
  · cases hadm
    have hpass' : s.passes claim objectID = false := Bool.not_eq_true _ ▸ hpass
    refine hs.mapWriters ?_ fun sub hnone hnil => (afterOffer_of_none hnone).trans hnil
    intro sub w hw hold
    have hasks : s.asks claim objectID heard sub = true := by
      simp only [asks, hw, if_neg hpass, Bool.not_eq_true']
      simpa using hknown
    rw [afterOffer, if_pos hasks, hpass']
    exact hP.offer ⟨pos, objectID, verdict sub, true⟩ {} false hl hold

end WriterSet

/-! ## The fan-out with its history -/

/-- A track being fanned out, and what each writer of each set was offered. -/
structure Traced where
  world : World
  offers : SetID → SubID → List Offer

namespace Traced

open World

/-- The history after an action. -/
def observe (t : Traced) : Action → SetID → SubID → List Offer
  | .forward c _ verdict =>
    match t.world.contribs c with
    | some ct =>
      match ct.phase with
      | .claimed claim _ heard =>
        Function.update t.offers ct.set
          (((t.world.sets ct.set).doneReading ct.objectID).afterOffer (t.offers ct.set) claim
            ⟨c, ct.seq⟩ ct.objectID heard.count verdict)
      | _ => t.offers
    | none => t.offers
  | _ => t.offers

def step (t : Traced) (a : Action) : Option Traced :=
  (t.world.step a).map fun W => ⟨W, t.observe a⟩

def init (cfg : WriterSet.Config) (cache : ObjectCache) : Traced :=
  ⟨World.init cfg cache, fun _ _ => []⟩

theorem observe_forward {t : Traced} {c : ContribID} {ct : Contributor} {claim : Claim}
    {obj : SubgroupObject} {heard : Heard} (hc : t.world.contribs c = some ct)
    (hp : ct.phase = .claimed claim obj heard) {now : Nat} {verdict : SubID → ForwardVerdict} :
    t.observe (.forward c now verdict) = Function.update t.offers ct.set
      (((t.world.sets ct.set).doneReading ct.objectID).afterOffer (t.offers ct.set) claim
        ⟨c, ct.seq⟩ ct.objectID heard.count verdict) := by
  simp only [observe, hc, hp]

/-- Every writer has the property. -/
def Holds (P : Writer → List Offer → Prop → Prop) (t : Traced) : Prop :=
  EachWriter (fun _ => P) (· = []) t.world t.offers

namespace Holds

variable {P : Writer → List Offer → Prop → Prop} {t t' : Traced}

theorem forward (hP : WriterInv P) (hi : Holds P t) {c : ContribID} {ct : Contributor}
    {claim : Claim} {obj : SubgroupObject} {heard : Heard} (hc : t.world.contribs c = some ct)
    (hp : ct.phase = .claimed claim obj heard) (now : Nat) (verdict : SubID → ForwardVerdict) :
    Holds P ⟨t.world.forward c ct claim obj heard now verdict, Function.update t.offers ct.set
      (((t.world.sets ct.set).doneReading ct.objectID).afterOffer (t.offers ct.set) claim
        ⟨c, ct.seq⟩ ct.objectID heard.count verdict)⟩ := by
  have hatt : Attached (t.world.forward c ct claim obj heard now verdict) :=
    hi.attached.step (step_forward hc hp)
  have hset : ((t.world.sets ct.set).doneReading ct.objectID).Each (fun _ => P) (· = [])
    (t.offers ct.set) (t.world.Registered ct.set) := (hi.each ct.set).of_board rfl
  obtain ⟨s, ok, hadm, hsets, hsub, -, hnext, -⟩ :=
    t.world.forward_eq c ct claim obj heard now verdict
  refine hi.offers hP.toWriterKept hatt hc (by simp [hp]) (fun hlive => ?_) hsets hsub hnext
    fun j hj => Function.update_of_ne hj _ _
  simp only [Function.update_self]
  cases ok with
  | false => exact hset.drops hP hlive hadm ⟨c, ct.seq⟩ heard.count
  | true =>
    have hpass : ((t.world.sets ct.set).doneReading ct.objectID).passes claim ct.objectID =
        true := by
      unfold WriterSet.admitAgedOut at hadm
      split_ifs at hadm with hpass
      · exact hpass
      · cases hadm
      · cases hadm
    obtain ⟨rfl, -⟩ := admitAgedOut_true hadm
    exact hset.forward hP hlive hpass verdict ⟨c, ct.seq⟩ obj ct.isTrueFirst heard.count

theorem step (hP : WriterInv P) (hi : Holds P t) {a : Action} (hs : t.step a = some t') :
    Holds P t' := by
  obtain ⟨W', hW', rfl⟩ := Option.map_eq_some_iff.mp hs
  cases a with
  | forward c now verdict =>
    obtain ⟨ct, claim, obj, heard, hc, hp, rfl⟩ := claimed_of_forward hW'
    rw [observe_forward hc hp]
    exact hi.forward hP hc hp now verdict
  | _ => exact EachWriter.quiet hP.toWriterKept hi (step_of hW') nofun fun _ _ _ _ _ => trivial

end Holds

end Traced

/-- **The rule**: what every operation keeps holds of every writer in every run. -/
theorem WriterInv.holds {P : Writer → List Offer → Prop → Prop} (hP : WriterInv P)
    {cfg : WriterSet.Config} {cache : ObjectCache} {as : List Action} {t : Traced}
    (hrun : Lib.run Traced.step (Traced.init cfg cache) as = some t) {i : SetID} {sub : SubID}
    {w : Writer} (hw : (t.world.sets i).writers sub = some (some w)) :
    P w (t.offers i sub) (t.world.Registered i) := by
  have hinit : (Traced.init cfg cache).Holds P := World.EachWriter.init cfg cache fun _ _ => rfl
  have hi : t.Holds P := Lib.run_inv (fun _ _ _ hi hs => hi.step hP hs) hinit hrun
  exact (hi.each i).writer hw

end MoqGo.Relay
