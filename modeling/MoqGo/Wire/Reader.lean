import MoqGo.Wire.Varint

/-!
# Readers and writers (`pkg/moqt/wire/wire.go`, `kv.go`)

`Reader` decodes an in-memory buffer, `StreamReader` a QUIC stream. Both are parsers over the
bytes not read yet; a stream that runs dry has ended with a FIN. A `StreamReader` refuses a
field longer than `MaxStreamFieldSize`, a variable of the package that deployments may raise:
here it is the argument `maxField` of the functions that read it.
-/

namespace MoqGo.Wire

/-- `MaxStreamFieldSize`, as the package sets it. -/
def maxStreamFieldSize : Nat := 16 <<< 20

/-- `Writer.VarintBytes`, what it appends. -/
def appendVarintBytes (p : List UInt8) : List UInt8 := appendVarint (UInt64.ofNat p.length) ++ p

/-! ## Reader -/

namespace Reader

/-- `Reader.UInt8`. -/
def uint8 : Lib.Parser UInt8 WireError UInt8
  | [] => .error .shortBuffer
  | b :: bs => .ok (b, bs)

theorem reads_uint8 (b : UInt8) : Lib.Reads uint8 [b] b := fun _ => rfl

theorem yields_uint8 : Lib.Yields uint8 fun _ n => n = 1 := by
  intro xs b ys h
  cases xs with
  | nil => cases h
  | cons x xs =>
    cases h
    exact ⟨1, rfl, by simp [Nat.add_comm]⟩

/-- `Reader.varintBytes`. -/
def varintBytes : Lib.Parser UInt8 WireError (List UInt8) := do
  let n ← parseVarint
  fun bs => if bs.length < n.toNat then .error .shortBuffer
    else .ok (bs.take n.toNat, bs.drop n.toNat)

end Reader

/-- `KVPair` (§8.3). An odd `type` carries bytes, an even one an integer. -/
structure KVPair where
  type : UInt64
  intVal : UInt64 := 0
  byteVal : List UInt8 := []
deriving DecidableEq, Repr, Inhabited

/-- `KVPair.IsBytes`. -/
def KVPair.isBytes (p : KVPair) : Bool := p.type &&& 1 == 1

/-- `MaxKVPairValueBytes`. -/
def maxKVPairValueBytes : Nat := 0xFFFF

/-- `Reader.kvPair`: a pair, its type relative to `prev`. -/
def Reader.kvPair (prev : UInt64) : Lib.Parser UInt8 WireError KVPair := do
  let delta ← parseVarint
  if 0xFFFFFFFFFFFFFFFF - prev < delta then
    throw (.kvDeltaOverflow prev delta)
  let type := prev + delta
  if KVPair.isBytes ⟨type, 0, []⟩ then
    let b ← Reader.varintBytes
    if maxKVPairValueBytes < b.length then throw (.kvValueTooLong b.length)
    return { type := type, byteVal := b }
  else
    let v ← parseVarint
    return { type := type, intVal := v }

/-! ## StreamReader -/

namespace StreamReader

/-- `StreamReader.UInt8`. -/
def uint8 : Lib.Parser UInt8 WireError UInt8
  | [] => .error .eof
  | b :: bs => .ok (b, bs)

/-- `StreamReader.FixedBytes`. A length of 2⁶³ or more wraps negative in the source, and is
    refused like any other above the limit. -/
def fixedBytes (maxField : Nat) (n : UInt64) : Lib.Parser UInt8 WireError (List UInt8) := fun bs =>
  if n = 0 then .ok ([], bs)
  else if maxField < n.toNat then .error (.fieldTooLarge n)
  else if bs = [] then .error .eof
  else if bs.length < n.toNat then .error .unexpectedEOF
  else .ok (bs.take n.toNat, bs.drop n.toNat)

/-- `StreamReader.VarintBytes`. -/
def varintBytes (maxField : Nat) : Lib.Parser UInt8 WireError (List UInt8) := do
  let n ← readVarint
  if maxField < n.toNat then throw (.fieldTooLarge n)
  fixedBytes maxField n

/-! ### Reading back what a writer wrote -/

theorem reads_uint8 (b : UInt8) : Lib.Reads uint8 [b] b := fun _ => rfl

variable {maxField : Nat} {p : List UInt8}

theorem reads_fixedBytes (hp : p.length ≤ maxField) (hmax : p.length < 2 ^ 64) :
    Lib.Reads (fixedBytes maxField (UInt64.ofNat p.length)) p p := by
  have hn : (UInt64.ofNat p.length).toNat = p.length := by
    rw [UInt64.toNat_ofNat']
    omega
  intro rest
  unfold fixedBytes
  split_ifs with h₀ h₁ h₂ h₃
  · have hnil : p = [] := by
      apply List.length_eq_zero_iff.mp
      rw [← hn, h₀]
      rfl
    rw [hnil, List.nil_append]
  · omega
  · obtain ⟨rfl, -⟩ := List.append_eq_nil_iff.mp h₂
    exact absurd rfl h₀
  · rw [hn, List.length_append] at h₃
    omega
  · rw [hn, List.take_left, List.drop_left]

theorem reads_varintBytes (hp : p.length ≤ maxField) (hmax : p.length < 2 ^ 64) :
    Lib.Reads (varintBytes maxField) (appendVarintBytes p) p := by
  have hn : (UInt64.ofNat p.length).toNat = p.length := by
    rw [UInt64.toNat_ofNat']
    omega
  refine (reads_readVarint _).bind ?_
  rw [if_neg (by omega)]
  exact reads_fixedBytes hp hmax

/-- A field longer than the limit is refused, whatever follows its length. -/
theorem varintBytes_fieldTooLarge (hbig : maxField < p.length) (hmax : p.length < 2 ^ 64)
    (tail : List UInt8) : varintBytes maxField (appendVarintBytes p ++ tail) =
      .error (.fieldTooLarge (UInt64.ofNat p.length)) := by
  have hlen : (UInt64.ofNat p.length).toNat = p.length := UInt64.toNat_ofNat_of_lt' hmax
  unfold varintBytes appendVarintBytes
  rw [List.append_assoc]
  refine (reads_readVarint _).bind_error ?_
  rw [if_pos (by omega)]
  rfl

end StreamReader
end MoqGo.Wire
