import MoqGo.Lib.Absorb
import MoqGo.Lib.Sequence
import MoqGo.Wire.Namespace
import MoqGo.Wire.Reader

/-!
# Fields of control messages (`pkg/moqt/wire/wire.go`, `namespace.go`, `kv.go`)

Byte strings, reason phrases, track namespaces and key-value pairs, as `Writer` writes and
`Reader` reads them. For each there is a lemma that the field is **read back** (`reads_…`), and
one that what is read **fits the limits** and takes no more bytes written again than it took
(`yields_…`).
-/

namespace MoqGo.Wire

open Lib List UInt64

/-- `MaxReasonPhraseBytes`. -/
def maxReasonPhraseBytes : Nat := 1024

/-- `MaxTrackNamespaceFields`. -/
def maxTrackNamespaceFields : Nat := 32

/-- `MaxFullTrackNameBytes`. -/
def maxFullTrackNameBytes : Nat := 4096

/-- What reading a field reports. -/
inductive FieldError
  | wire (err : WireError)
  | reasonPhraseTooLong (n : UInt64)
  | namespaceFields (count : UInt64)
  | namespaceFieldEmpty (i : Nat)
  | namespaceTooLong
deriving DecidableEq, Repr, Inhabited

/-! ## Byte strings -/

theorem toNat_length {p : List UInt8} (h : p.length < 2 ^ 64) :
    (UInt64.ofNat p.length).toNat = p.length :=
  toNat_ofNat_of_lt' h

theorem length_le_appendVarintBytes (p : List UInt8) : p.length ≤ (appendVarintBytes p).length := by
  rw [appendVarintBytes, length_append]
  omega

namespace Reader

/-- `Reader.FixedBytes`. -/
def fixedBytes (n : Nat) : Parser UInt8 WireError (List UInt8) := fun bs =>
  if bs.length < n then .error .shortBuffer else .ok (bs.take n, bs.drop n)

theorem reads_fixedBytes (p : List UInt8) : Reads (fixedBytes p.length) p p := by
  intro rest
  rw [fixedBytes, length_append, if_neg (by omega), take_left, drop_left]

theorem yields_fixedBytes (n : Nat) : Yields (fixedBytes n)
    fun p m => p.length = n ∧ m = n := by
  intro bs p ys h
  rw [fixedBytes] at h
  split_ifs at h with hshort
  cases h
  refine ⟨n, ⟨?_, rfl⟩, ?_⟩
  · rw [length_take]
    omega
  · rw [length_drop]
    omega

theorem reads_varintBytes {p : List UInt8} (h : p.length < 2 ^ 64) :
    Reads varintBytes (appendVarintBytes p) p := by
  refine (reads_parseVarint _).bind ?_
  rw [toNat_length h]
  exact reads_fixedBytes p

theorem yields_varintBytes :
    Yields varintBytes fun p n => p.length < 2 ^ 64 ∧ n = (appendVarintBytes p).length := by
  refine yields_parseVarint.bind fun v n hn => ?_
  refine (yields_fixedBytes v.toNat).mono fun p m hp => ?_
  obtain ⟨hlen, rfl⟩ := hp
  refine ⟨hlen ▸ v.toNat_lt, ?_⟩
  rw [appendVarintBytes, length_append, hlen, UInt64.ofNat_toNat, hn]

/-- `Reader.RemainingBytes`. -/
def remainingBytes {ε : Type} : Parser UInt8 ε (List UInt8) := fun bs => .ok (bs, [])

theorem ends_remainingBytes {ε : Type} (p : List UInt8) :
    Ends (remainingBytes : Parser UInt8 ε (List UInt8)) p p := rfl

theorem yields_remainingBytes {ε : Type} :
    Yields (remainingBytes : Parser UInt8 ε (List UInt8)) fun p n => n = p.length := by
  intro xs p ys h
  cases h
  exact ⟨_, rfl, by simp⟩

end Reader

/-! ## Reason phrases -/

def isContinuation (b : UInt8) : Bool := decide (0x80 ≤ b) && decide (b ≤ 0xBF)

/-- `utf8.DecodeRuneInString`: the size of the rune in front, `none` for the `RuneError` of an
    encoding that is not valid. -/
def runeSize : List UInt8 → Option Nat
  | [] => none
  | b₀ :: bs =>
    if b₀ < 0x80 then some 1
    else if 0xC2 ≤ b₀ ∧ b₀ ≤ 0xDF then
      match bs with
      | b₁ :: _ => if isContinuation b₁ then some 2 else none
      | _ => none
    else if 0xE0 ≤ b₀ ∧ b₀ ≤ 0xEF then
      match bs with
      | b₁ :: b₂ :: _ =>
        if (if b₀ = 0xE0 then 0xA0 else 0x80) ≤ b₁ ∧ b₁ ≤ (if b₀ = 0xED then 0x9F else 0xBF) ∧
            isContinuation b₂ then some 3
        else none
      | _ => none
    else if 0xF0 ≤ b₀ ∧ b₀ ≤ 0xF4 then
      match bs with
      | b₁ :: b₂ :: b₃ :: _ =>
        if (if b₀ = 0xF0 then 0x90 else 0x80) ≤ b₁ ∧ b₁ ≤ (if b₀ = 0xF4 then 0x8F else 0xBF) ∧
            isContinuation b₂ ∧ isContinuation b₃ then some 4
        else none
      | _ => none
    else none

/-- Where `utf8.DecodeLastRuneInString` looks for the last rune: at the last byte but one, or one
    of the two before it, if it can start a rune; failing that, just before those. -/
def lastRuneStart (s : List UInt8) : Nat :=
  let lim := s.length - 4
  (((List.range (s.length - 1 - lim)).map (s.length - 2 - ·)).find? fun i =>
    !isContinuation (s.getD i 0)).getD (lim - 1)

/-- `utf8.DecodeLastRuneInString` reports a `RuneError` of size 1 (or 0, on no bytes). -/
def lastRuneBroken (s : List UInt8) : Bool :=
  match s.getLast? with
  | none => true
  | some b =>
    if b < 0x80 then false
    else
      let start := lastRuneStart s
      runeSize (s.drop start) != some (s.length - start)

/-- The loop of `Writer.ReasonPhrase`: broken runes at the end go, byte by byte. -/
def dropBroken : Nat → List UInt8 → List UInt8
  | 0, s => s
  | n + 1, s => if s ≠ [] ∧ lastRuneBroken s then dropBroken n s.dropLast else s

/-- `Writer.ReasonPhrase`, what it appends. -/
def appendReasonPhrase (s : List UInt8) : List UInt8 :=
  appendVarintBytes
    (if maxReasonPhraseBytes < s.length then
      dropBroken maxReasonPhraseBytes (s.take maxReasonPhraseBytes)
    else s)

/-- `Reader.ReasonPhrase`. -/
def Reader.reasonPhrase : Parser UInt8 FieldError (List UInt8) := do
  let n ← parseVarint.mapError FieldError.wire
  if maxReasonPhraseBytes < n.toNat then throw (.reasonPhraseTooLong n)
  else (Reader.fixedBytes n.toNat).mapError FieldError.wire

theorem appendReasonPhrase_eq {s : List UInt8} (h : s.length ≤ maxReasonPhraseBytes) :
    appendReasonPhrase s = appendVarintBytes s := by
  rw [appendReasonPhrase, if_neg (by omega)]

theorem Reader.reads_reasonPhrase {s : List UInt8} (h : s.length ≤ maxReasonPhraseBytes) :
    Reads Reader.reasonPhrase (appendReasonPhrase s) s := by
  have hlen : (UInt64.ofNat s.length).toNat = s.length :=
    toNat_length (lt_of_le_of_lt h (by decide))
  rw [appendReasonPhrase_eq h]
  refine ((reads_parseVarint _).mapError _).bind ?_
  rw [hlen, if_neg (by omega)]
  exact (Reader.reads_fixedBytes s).mapError _

theorem Reader.yields_reasonPhrase :
    Yields Reader.reasonPhrase fun s n =>
      s.length ≤ maxReasonPhraseBytes ∧ n = (appendReasonPhrase s).length := by
  refine (yields_parseVarint.mapError _).bind fun v n hn => ?_
  split_ifs with hlong
  · exact yields_throw
  · refine ((Reader.yields_fixedBytes v.toNat).mono fun s m hs => ?_).mapError _
    obtain ⟨hlen, rfl⟩ := hs
    refine ⟨by omega, ?_⟩
    rw [appendReasonPhrase_eq (by omega), appendVarintBytes, length_append, hlen,
      UInt64.ofNat_toNat, hn]

/-! ## Track namespaces -/

namespace TrackNamespace

/-- `TrackNamespace.ByteLen`. -/
def byteLen : TrackNamespace → Nat
  | [] => 0
  | f :: ns => f.length + byteLen ns

/-- The limits of §8.7. -/
structure Within (ns : TrackNamespace) : Prop where
  fields : ns.length ≤ maxTrackNamespaceFields
  nonempty : ∀ f ∈ ns, f ≠ []
  bytes : byteLen ns ≤ maxFullTrackNameBytes

end TrackNamespace

/-- `Writer.TrackNamespace`, what it appends. -/
def appendTrackNamespace (ns : TrackNamespace) : List UInt8 :=
  appendVarint (UInt64.ofNat ns.length) ++ ns.flatMap appendVarintBytes

namespace Reader

/-- The loop of `Reader.TrackNamespace`: `i` fields of `total` bytes are read. -/
def trackNamespaceFields : Nat → Nat → Nat → Parser UInt8 FieldError TrackNamespace
  | 0, _, _ => pure []
  | count + 1, i, total => do
    let field ← varintBytes.mapError FieldError.wire
    if field.length = 0 then throw (.namespaceFieldEmpty i)
    else if maxFullTrackNameBytes < total + field.length then throw .namespaceTooLong
    else do
      let ns ← trackNamespaceFields count (i + 1) (total + field.length)
      return field :: ns

/-- `Reader.TrackNamespace`. -/
def trackNamespace : Parser UInt8 FieldError TrackNamespace := do
  let count ← parseVarint.mapError FieldError.wire
  if maxTrackNamespaceFields < count.toNat then throw (.namespaceFields count)
  else trackNamespaceFields count.toNat 0 0

theorem reads_trackNamespaceFields :
    ∀ {ns : TrackNamespace} {i total : Nat}, (∀ f ∈ ns, f ≠ []) →
      total + ns.byteLen ≤ maxFullTrackNameBytes →
      Reads (trackNamespaceFields ns.length i total) (ns.flatMap appendVarintBytes) ns := by
  intro ns
  induction ns with
  | nil =>
    intro i total _ _
    exact reads_pure []
  | cons f ns ih =>
    intro i total hne htotal
    have hf : f.length ≠ 0 := fun h => hne f mem_cons_self (length_eq_zero_iff.mp h)
    rw [TrackNamespace.byteLen] at htotal
    have hlt : f.length < 2 ^ 64 := lt_of_le_of_lt (show _ ≤ maxFullTrackNameBytes by omega)
      (by decide)
    refine ((reads_varintBytes hlt).mapError _).bind ?_
    rw [if_neg hf, if_neg (by omega)]
    exact (ih (fun g hg => hne g (mem_cons_of_mem _ hg)) (by omega)).map

theorem reads_trackNamespace {ns : TrackNamespace} (h : ns.Within) :
    Reads trackNamespace (appendTrackNamespace ns) ns := by
  have hlen : (UInt64.ofNat ns.length).toNat = ns.length :=
    toNat_ofNat_of_lt' (lt_of_le_of_lt h.fields (by decide))
  have hfields := h.fields
  refine ((reads_parseVarint _).mapError _).bind ?_
  rw [hlen, if_neg (by omega)]
  exact reads_trackNamespaceFields h.nonempty (by simpa using h.bytes)

theorem yields_trackNamespaceFields (count : Nat) :
    ∀ i total : Nat, total ≤ maxFullTrackNameBytes →
      Yields (trackNamespaceFields count i total) fun ns n =>
        ns.length = count ∧ (∀ f ∈ ns, f ≠ []) ∧ total + ns.byteLen ≤ maxFullTrackNameBytes ∧
          n = (ns.flatMap appendVarintBytes).length := by
  induction count with
  | zero =>
    intro i total htotal
    exact yields_pure ⟨rfl, nofun, htotal, rfl⟩
  | succ count ih =>
    intro i total _
    refine (yields_varintBytes.mapError _).bind fun f n hf => ?_
    obtain ⟨-, rfl⟩ := hf
    split_ifs with hempty hlong
    · exact yields_throw
    · exact yields_throw
    · refine (ih (i + 1) (total + f.length) (by omega)).bind fun ns m hns => yields_pure ?_
      obtain ⟨hlen, hne, hbytes, rfl⟩ := hns
      refine ⟨by simp [hlen], ?_, ?_, by simp⟩
      · intro g hg
        rcases mem_cons.mp hg with rfl | hg
        · exact fun h => hempty (length_eq_zero_iff.mpr h)
        · exact hne g hg
      · rw [TrackNamespace.byteLen]
        omega

theorem yields_trackNamespace :
    Yields trackNamespace fun ns n => ns.Within ∧ n = (appendTrackNamespace ns).length := by
  refine (yields_parseVarint.mapError _).bind fun v n hn => ?_
  split_ifs with hmany
  · exact yields_throw
  · refine (yields_trackNamespaceFields v.toNat 0 0 (by decide)).mono fun ns m hns => ?_
    obtain ⟨hlen, hne, hbytes, rfl⟩ := hns
    refine ⟨⟨by omega, hne, by omega⟩, ?_⟩
    rw [appendTrackNamespace, length_append, hlen, UInt64.ofNat_toNat, hn]

end Reader

/-! ## Differences of keys -/

theorem add_sub_of_le (prev t : UInt64) : prev + (t - prev) = t := by
  rw [UInt64.add_comm, UInt64.sub_add_cancel]

variable {prev : UInt64}

theorem delta_overflow_iff {delta : UInt64} :
    0xFFFFFFFFFFFFFFFF - prev < delta ↔ 2 ^ 64 ≤ prev.toNat + delta.toNat := by
  have hmax : (0xFFFFFFFFFFFFFFFF : UInt64).toNat = 2 ^ 64 - 1 := rfl
  have hprev := prev.toNat_lt
  have hle : prev ≤ 0xFFFFFFFFFFFFFFFF := by
    rw [le_iff_toNat_le, hmax]
    omega
  rw [UInt64.lt_iff_toNat_lt, UInt64.toNat_sub_of_le _ _ hle, hmax]
  omega

theorem not_delta_overflow {t : UInt64} (h : prev ≤ t) :
    ¬ 0xFFFFFFFFFFFFFFFF - prev < t - prev := by
  have hle := le_iff_toNat_le.mp h
  have ht := t.toNat_lt
  rw [delta_overflow_iff, UInt64.toNat_sub_of_le _ _ h]
  omega

theorem delta_of_not_overflow {delta : UInt64} (h : ¬ 0xFFFFFFFFFFFFFFFF - prev < delta) :
    prev ≤ prev + delta ∧ prev + delta - prev = delta := by
  rw [delta_overflow_iff] at h
  constructor
  · rw [UInt64.le_iff_toNat_le, UInt64.toNat_add]
    omega
  · rw [UInt64.add_comm, UInt64.add_sub_cancel]

instance le_isTrans : IsTrans UInt64 (· ≤ ·) := ⟨fun _ _ _ => UInt64.le_trans⟩

instance le_total : Std.Total (α := UInt64) (· ≤ ·) := ⟨UInt64.le_total⟩

section Sorted

variable {α : Type} {key : α → UInt64} {P : α → Prop} {f : α → α} {as : List α}

theorem fitsSeq_zero_iff :
    FitsSeq (fun s a => s ≤ key a ∧ P a) key 0 as ↔
      as.Pairwise (fun a b => key a ≤ key b) ∧ ∀ a ∈ as, P a := by
  rw [fitsSeq_iff, pairwise_cons, pairwise_map]
  exact and_congr_left' (and_iff_right fun k _ => UInt64.zero_le)

theorem fitsSeq_sort (hf : ∀ a, key (f a) = key a) (h : ∀ a ∈ as, P (f a)) :
    FitsSeq (fun s a => s ≤ key a ∧ P a) key 0
      ((as.insertionSort fun a b => key a ≤ key b).map f) := by
  have hsorted := pairwise_sort (fun a => (key a).toNat)
    (fun _ _ => le_iff_toNat_le) as
  refine fitsSeq_zero_iff.mpr ⟨?_, ?_⟩
  · simp only [pairwise_map, hf]
    exact hsorted.imp le_iff_toNat_le.mpr
  · intro a ha
    obtain ⟨b, hb, rfl⟩ := mem_map.mp ha
    exact h b ((perm_insertionSort _ as).mem_iff.mp hb)

theorem sort_of_fitsSeq (h : FitsSeq (fun s a => s ≤ key a ∧ P a) key 0 as)
    (hf : ∀ a, P a → f a = a) : (as.insertionSort fun a b => key a ≤ key b).map f = as := by
  obtain ⟨hsorted, hall⟩ := fitsSeq_zero_iff.mp h
  rw [hsorted.insertionSort_eq]
  exact (map_congr_left fun a ha => hf a (hall a ha)).trans (map_id as)

end Sorted

/-! ## Key-value pairs -/

namespace KVPair

/-- A pair without the field that its type does not use. -/
def value (p : KVPair) : KVPair :=
  if p.isBytes then { p with intVal := 0 } else { p with byteVal := [] }

/-- The limit of §8.3. -/
def Within (p : KVPair) : Prop :=
  p.isBytes = true → p.byteVal.length ≤ maxKVPairValueBytes

/-- A pair after one of type `prev`, as it is read. -/
def Fits (prev : UInt64) (p : KVPair) : Prop :=
  prev ≤ p.type ∧ p.value = p ∧ p.Within

variable {p : KVPair}

theorem value_bytes (h : p.isBytes = true) : p.value = ⟨p.type, 0, p.byteVal⟩ :=
  if_pos h

theorem value_int (h : p.isBytes = false) : p.value = ⟨p.type, p.intVal, []⟩ :=
  if_neg (by simp [h])

theorem type_value (p : KVPair) : p.value.type = p.type := by
  unfold value
  split_ifs <;> rfl

theorem value_value (p : KVPair) : p.value.value = p.value := by
  cases hb : p.isBytes with
  | true =>
    rw [value_bytes hb]
    exact value_bytes hb
  | false =>
    rw [value_int hb]
    exact value_int hb

theorem Within.value (h : p.Within) : p.value.Within := by
  cases hb : p.isBytes with
  | true =>
    rw [value_bytes hb]
    exact fun _ => h hb
  | false =>
    rw [value_int hb]
    exact fun _ => Nat.zero_le _

end KVPair

/-- `Writer.KVPair`, what it appends after a pair of type `prev`. -/
def appendKVPair (prev : UInt64) (p : KVPair) : List UInt8 :=
  appendVarint (p.type - prev) ++
    if p.isBytes then appendVarintBytes p.byteVal else appendVarint p.intVal

/-- The stable sort of `Writer.KVPairs`. -/
def sortKVPairs (pairs : List KVPair) : List KVPair :=
  pairs.insertionSort fun a b => a.type ≤ b.type

/-- `Writer.KVPairs`, what it appends. -/
def appendKVPairs (pairs : List KVPair) : List UInt8 :=
  writeSeq appendKVPair KVPair.type 0 (sortKVPairs pairs)

theorem appendKVPair_value (prev : UInt64) (p : KVPair) :
    appendKVPair prev p.value = appendKVPair prev p := by
  unfold KVPair.value
  split_ifs with h
  · have h' : KVPair.isBytes { p with intVal := 0 } = true := h
    rw [appendKVPair, appendKVPair, if_pos h, if_pos h']
  · have h' : ¬ KVPair.isBytes { p with byteVal := [] } = true := h
    rw [appendKVPair, appendKVPair, if_neg h, if_neg h']

theorem Reader.reads_kvPair {prev : UInt64} {p : KVPair} (h : p.Fits prev) :
    Reads (Reader.kvPair prev) (appendKVPair prev p) p := by
  obtain ⟨hle, hvalue, hwithin⟩ := h
  refine (reads_parseVarint _).bind ?_
  rw [if_neg (not_delta_overflow hle), add_sub_of_le]
  cases hb : p.isBytes with
  | true =>
    have hb' : KVPair.isBytes ⟨p.type, 0, []⟩ = true := hb
    have hbytes := hwithin hb
    rw [if_pos hb', if_pos rfl, ← append_nil (appendVarintBytes _)]
    refine (reads_varintBytes (lt_of_le_of_lt hbytes (by decide))).bind ?_
    rw [if_neg (by omega), ← KVPair.value_bytes hb, hvalue]
    exact reads_pure p
  | false =>
    have hb' : ¬ KVPair.isBytes ⟨p.type, 0, []⟩ = true := by
      intro h
      exact absurd (hb.symm.trans h) Bool.false_ne_true
    have hread := (reads_parseVarint p.intVal).map (f := fun v => (⟨p.type, v, []⟩ : KVPair))
    rw [if_neg hb', if_neg Bool.false_ne_true]
    rwa [← KVPair.value_int hb, hvalue] at hread

theorem Reader.yields_kvPair (prev : UInt64) :
    Yields (Reader.kvPair prev) fun p n => p.Fits prev ∧ n = (appendKVPair prev p).length := by
  refine yields_parseVarint.bind fun delta n hn => ?_
  split_ifs with hover
  · exact yields_throw_bind
  · obtain ⟨hle, hsub⟩ := delta_of_not_overflow hover
    dsimp only
    split_ifs with hb
    · refine yields_varintBytes.bind fun b m hm => ?_
      obtain ⟨-, rfl⟩ := hm
      split_ifs with hlong
      · exact yields_throw_bind
      · have hb' : KVPair.isBytes ⟨prev + delta, 0, b⟩ = true := hb
        refine yields_pure ⟨⟨hle, KVPair.value_bytes hb', fun _ => by simpa using hlong⟩, ?_⟩
        rw [appendKVPair, if_pos hb', length_append, hsub, hn, Nat.add_zero]
    · refine yields_parseVarint.bind fun v m hm => yields_pure ?_
      have hb' : ¬ KVPair.isBytes ⟨prev + delta, v, []⟩ = true := hb
      refine ⟨⟨hle, KVPair.value_int (Bool.eq_false_iff.mpr hb'), fun _ => Nat.zero_le _⟩, ?_⟩
      rw [appendKVPair, if_neg hb', length_append, hsub, hn, hm, Nat.add_zero]

theorem Reader.consumes_kvPair (prev : UInt64) : Consumes (Reader.kvPair prev) := by
  refine (Reader.yields_kvPair prev).consumes fun p n hp => ?_
  rw [hp.2, appendKVPair, length_append, length_appendVarint]
  exact Nat.add_pos_left (varintLen_pos _) _

/-- `Reader.KVPairsRemaining`. -/
def Reader.kvPairsRemaining : Parser UInt8 WireError (List KVPair) := fun bs =>
  match untilEmpty (readStep Reader.kvPair KVPair.type) bs.length (0, []) bs with
  | .error e => .error e
  | .ok (_, pairs) => .ok (pairs, [])

def kvPairsValue (pairs : List KVPair) : List KVPair :=
  (sortKVPairs pairs).map KVPair.value

theorem Reader.ends_kvPairsRemaining {pairs : List KVPair} (h : ∀ p ∈ pairs, p.Within) :
    Ends Reader.kvPairsRemaining (appendKVPairs pairs) (kvPairsValue pairs) := by
  have hwrite : writeSeq appendKVPair KVPair.type 0 (kvPairsValue pairs) =
      appendKVPairs pairs :=
    writeSeq_map KVPair.type_value appendKVPair_value
  have hfits : FitsSeq KVPair.Fits KVPair.type 0 (kvPairsValue pairs) :=
    fitsSeq_sort KVPair.type_value fun p hp => ⟨p.value_value, (h p hp).value⟩
  obtain ⟨s', hs'⟩ := untilEmpty_writeSeq Reader.consumes_kvPair
    (fun _ _ => Reader.reads_kvPair) [] _ hfits le_rfl
  rw [hwrite] at hs'
  show Reader.kvPairsRemaining _ = _
  rw [Reader.kvPairsRemaining, hs']
  rfl

theorem Reader.yields_kvPairsRemaining :
    Yields Reader.kvPairsRemaining fun pairs n =>
      ((∀ p ∈ pairs, p.Within) ∧ kvPairsValue pairs = pairs) ∧
        n = (appendKVPairs pairs).length := by
  intro bs pairs ys h
  rw [Reader.kvPairsRemaining] at h
  split at h
  · cases h
  · next s' pairs' hs' =>
    cases h
    obtain ⟨as, has, hfits, hlen⟩ := untilEmpty_yields Reader.yields_kvPair hs'
    subst has
    have hvalue : kvPairsValue pairs = pairs := sort_of_fitsSeq hfits fun p hp => hp.1
    have hwrite : writeSeq appendKVPair KVPair.type 0 (kvPairsValue pairs) =
        appendKVPairs pairs :=
      writeSeq_map KVPair.type_value appendKVPair_value
    rw [hvalue] at hwrite
    refine ⟨_, ⟨⟨fun p hp => ((fitsSeq_zero_iff.mp hfits).2 p hp).2, hvalue⟩, rfl⟩, ?_⟩
    rw [← hwrite]
    simpa using hlen

theorem Reader.type_kvPair {prev : UInt64} {bs rest : List UInt8} {p : KVPair}
    (h : Reader.kvPair prev bs = .ok (p, rest)) :
    ∃ delta ys, parseVarint bs = .ok (delta, ys) ∧ p.type.toNat = prev.toNat + delta.toNat := by
  obtain ⟨delta, ys, hdelta, h⟩ := Parser.bind_ok h
  refine ⟨delta, ys, hdelta, ?_⟩
  split_ifs at h with hover
  · cases h
  · have htype : p.type = prev + delta := by
      dsimp only at h
      split_ifs at h
      · obtain ⟨b, zs, -, h⟩ := Parser.bind_ok h
        split_ifs at h
        · cases h
        · cases h
          rfl
      · obtain ⟨v, zs, -, h⟩ := Parser.bind_ok h
        cases h
        rfl
    rw [delta_overflow_iff] at hover
    rw [htype, UInt64.toNat_add]
    omega

/-- Pairs of one type keep their order. -/
theorem filter_sortKVPairs (pairs : List KVPair) (t : UInt64) :
    (sortKVPairs pairs).filter (·.type = t) = pairs.filter (·.type = t) := by
  have hperm : (sortKVPairs pairs).Perm pairs := perm_insertionSort _ pairs
  have hequal : (pairs.filter (·.type = t)).Pairwise fun a b => a.type ≤ b.type := by
    refine pairwise_of_forall_mem_list fun a ha b hb => ?_
    rw [of_decide_eq_true (mem_filter.mp ha).2, of_decide_eq_true (mem_filter.mp hb).2]
    exact UInt64.le_refl t
  have hsub := (sublist_insertionSort hequal filter_sublist).filter (·.type = t)
  simp only [filter_filter, Bool.and_self] at hsub
  exact (hsub.eq_of_length (hperm.filter _).length_eq.symm).symm

/-- **Key-value pair lists.** What `Writer.KVPairs` writes is read as the pairs stably sorted by
    type, each with the value its type has. Reading a pair adds the difference to the type before
    without wrapping around; a list that is read has its types in order, and is read again from
    its own encoding. -/
theorem kvPairs_roundTrip :
    (∀ pairs : List KVPair, (∀ p ∈ pairs, p.Within) →
      ∃ sorted : List KVPair, Reader.kvPairsRemaining (appendKVPairs pairs) =
          .ok (sorted.map KVPair.value, []) ∧
        sorted.Pairwise (fun a b => a.type ≤ b.type) ∧ sorted.Perm pairs ∧
        ∀ t, sorted.filter (·.type = t) = pairs.filter (·.type = t)) ∧
    (∀ prev bs p rest, Reader.kvPair prev bs = .ok (p, rest) →
      ∃ delta ys, parseVarint bs = .ok (delta, ys) ∧
        p.type.toNat = prev.toNat + delta.toNat) ∧
    ∀ bs pairs rest, Reader.kvPairsRemaining bs = .ok (pairs, rest) →
      rest = [] ∧ pairs.Pairwise (fun a b => a.type ≤ b.type) ∧
        Reader.kvPairsRemaining (appendKVPairs pairs) = .ok (pairs, []) := by
  have hsorted : ∀ pairs, (sortKVPairs pairs).Pairwise fun a b => a.type ≤ b.type := by
    intro pairs
    exact (pairwise_sort (fun p : KVPair => p.type.toNat)
      (fun _ _ => le_iff_toNat_le) pairs).imp le_iff_toNat_le.mpr
  refine ⟨fun pairs h => ⟨sortKVPairs pairs, Reader.ends_kvPairsRemaining h, hsorted pairs,
    perm_insertionSort _ pairs, filter_sortKVPairs pairs⟩,
    fun _ _ _ _ h => Reader.type_kvPair h, ?_⟩
  intro bs pairs rest h
  obtain ⟨n, ⟨⟨hwithin, hvalue⟩, -⟩, -⟩ := Reader.yields_kvPairsRemaining bs pairs rest h
  have hagain := Reader.ends_kvPairsRemaining hwithin
  rw [hvalue] at hagain
  refine ⟨?_, ?_, hagain⟩
  · rw [Reader.kvPairsRemaining] at h
    split at h
    · cases h
    · cases h
      rfl
  · have htypes := hsorted pairs
    rw [← hvalue, kvPairsValue, pairwise_map]
    simpa only [KVPair.type_value] using htypes

end MoqGo.Wire
