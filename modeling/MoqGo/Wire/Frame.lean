import MoqGo.Wire.Fields

/-!
# Control-message frames (`pkg/moqt/wire/frame.go`)

A frame is a type, a length of two bytes and a payload. **Only a stream that ends before the type
ends with `io.EOF`**; one that ends later is cut off.
-/

namespace MoqGo.Wire

/-- `MaxControlMessagePayload`. -/
def maxControlMessagePayload : Nat := 0xFFFF

/-- `io.ReadFull` of at least one byte, its `io.EOF` reported as `io.ErrUnexpectedEOF`. -/
def readFull (n : Nat) : Lib.Parser UInt8 WireError (List UInt8) := fun bs =>
  if bs.length < n then .error .unexpectedEOF else .ok (bs.take n, bs.drop n)

/-- `binary.BigEndian.Uint16`. -/
def uint16 : List UInt8 → Nat
  | [hi, lo] => hi.toNat * 256 + lo.toNat
  | _ => 0

/-- `ReadFrame`. -/
def readFrame : Lib.Parser UInt8 WireError (UInt64 × List UInt8) := do
  let msgType ← readVarint
  let lenBuf ← readFull 2
  if uint16 lenBuf = 0 then return (msgType, [])
  else do
    let payload ← readFull (uint16 lenBuf)
    return (msgType, payload)

/-- The error of `WriteFrame`. -/
structure PayloadTooLarge where
  size : Nat
deriving DecidableEq, Repr

/-- `WriteFrame`, what it writes. -/
def writeFrame (msgType : UInt64) (payload : List UInt8) : Except PayloadTooLarge (List UInt8) :=
  if maxControlMessagePayload < payload.length then .error ⟨payload.length⟩
  else
    .ok (appendVarint msgType ++
      ([UInt8.ofNat (payload.length >>> 8), UInt8.ofNat payload.length] ++ payload))

theorem reads_readFull (p : List UInt8) : Lib.Reads (readFull p.length) p p := by
  intro rest
  rw [readFull, List.length_append, if_neg (by omega), List.take_left, List.drop_left]

theorem length_of_readFull {n : Nat} {bs p rest : List UInt8} (h : readFull n bs = .ok (p, rest)) :
    p.length = n := by
  rw [readFull] at h
  split_ifs at h with hshort
  cases h
  rw [List.length_take]
  omega

theorem uint16_ofNat {n : Nat} (h : n ≤ maxControlMessagePayload) :
    uint16 [UInt8.ofNat (n >>> 8), UInt8.ofNat n] = n := by
  unfold maxControlMessagePayload at h
  rw [uint16, UInt8.toNat_ofNat', UInt8.toNat_ofNat', Nat.shiftRight_eq_div_pow]
  omega

theorem uint16_le (bs : List UInt8) : uint16 bs ≤ maxControlMessagePayload := by
  unfold uint16 maxControlMessagePayload
  split
  · next hi lo =>
    have hhi := hi.toNat_lt
    have hlo := lo.toNat_lt
    omega
  · exact Nat.zero_le _

theorem reads_readFrame (msgType : UInt64) {payload : List UInt8}
    (h : payload.length ≤ maxControlMessagePayload) :
    ∃ frame, writeFrame msgType payload = .ok frame ∧
      Lib.Reads readFrame frame (msgType, payload) := by
  refine ⟨_, if_neg (by omega), ?_⟩
  refine (reads_readVarint msgType).bind ?_
  refine (reads_readFull [_, _]).bind ?_
  rw [uint16_ofNat h]
  split_ifs with hzero
  · rw [List.length_eq_zero_iff.mp hzero]
    exact Lib.reads_pure _
  · exact (reads_readFull payload).map

theorem length_of_readFrame {bs payload rest : List UInt8} {msgType : UInt64}
    (h : readFrame bs = .ok ((msgType, payload), rest)) :
    payload.length ≤ maxControlMessagePayload := by
  obtain ⟨_, _, -, hlen⟩ := Lib.Parser.bind_ok h
  obtain ⟨lenBuf, _, -, hpayload⟩ := Lib.Parser.bind_ok hlen
  split_ifs at hpayload with hzero
  · cases hpayload
    exact Nat.zero_le _
  · obtain ⟨p, _, hp, hpure⟩ := Lib.Parser.bind_ok hpayload
    cases hpure
    rw [length_of_readFull hp]
    exact uint16_le lenBuf

end MoqGo.Wire
