import Mathlib.Tactic
import MoqGo.Lib.Codec

/-!
# MoQT varints (`pkg/moqt/wire/varint.go`)

The number of leading one bits of the first byte gives the length, 1 to 9 bytes; the value
takes the bits after the first zero, and the bytes that follow, big-endian. `AppendVarint`
writes the shortest form, and the decoders accept any.

The arithmetic of the round trip is in two finite facts about the first byte (`firstByte_spec`)
and one about big-endian bytes (`foldl_bigEndian`).
-/

namespace MoqGo.Wire

open List

/-- The errors of the package that decoding reports. -/
inductive WireError
  | shortBuffer
  | eof
  | unexpectedEOF
  | fieldTooLarge (n : UInt64)
  | kvDeltaOverflow (prev delta : UInt64)
  | kvValueTooLong (n : Nat)
deriving DecidableEq, Repr, Inhabited

/-! ## Encoding -/

/-- `VarintLen`. -/
def varintLen (v : UInt64) : Nat :=
  if v < 0x80 then 1
  else if v < 0x4000 then 2
  else if v < 0x200000 then 3
  else if v < 0x10000000 then 4
  else if v < 0x800000000 then 5
  else if v < 0x40000000000 then 6
  else if v < 0x2000000000000 then 7
  else if v < 0x100000000000000 then 8
  else 9

/-- The low `n` bytes of `v`, in network byte order. -/
def bigEndian : Nat → UInt64 → List UInt8
  | 0, _ => []
  | n + 1, v => (v >>> UInt64.ofNat (8 * n)).toUInt8 :: bigEndian n v

/-- The length prefix of an `n`-byte encoding, `n ≤ 8`: `n - 1` leading ones. -/
def lenPrefix (n : Nat) : UInt8 := ~~~((0xFF : UInt8) >>> UInt8.ofNat (n - 1))

/-- `AppendVarint`, what it appends. -/
def appendVarint (v : UInt64) : List UInt8 :=
  let n := varintLen v
  if n = 9 then 0xFF :: bigEndian 8 v
  else
    match bigEndian n v with
    | b :: bs => (b ||| lenPrefix n) :: bs
    | [] => []

/-! ## Decoding -/

/-- `bits.LeadingZeros8`. -/
def leadingZeros8 (b : UInt8) : Nat :=
  if 0x80 ≤ b then 0
  else if 0x40 ≤ b then 1
  else if 0x20 ≤ b then 2
  else if 0x10 ≤ b then 3
  else if 0x08 ≤ b then 4
  else if 0x04 ≤ b then 5
  else if 0x02 ≤ b then 6
  else if 0x01 ≤ b then 7
  else 8

/-- `varintLenFromFirst`. -/
def varintLenFromFirst (first : UInt8) : Nat :=
  let ones := leadingZeros8 (~~~first)
  if ones = 8 then 9 else ones + 1

/-- The value bits of the first byte of an `n`-byte encoding. A shift by 8 leaves none. -/
def valueMask (n : Nat) : UInt8 := UInt8.ofNat (0xFF >>> n)

/-- The value of an encoding: the value bits of its first byte, then the bytes `rest`. -/
def varintValue (n : Nat) (first : UInt8) (rest : List UInt8) : UInt64 :=
  let v : UInt64 := if n = 9 then 0 else (first &&& valueMask n).toUInt64
  rest.foldl (fun v b => v <<< 8 ||| b.toUInt64) v

/-- `ParseVarint`, on the unread bytes of a `Reader`. -/
def parseVarint : Lib.Parser UInt8 WireError UInt64
  | [] => .error .shortBuffer
  | first :: bs =>
    let n := varintLenFromFirst first
    if bs.length < n - 1 then .error .shortBuffer
    else .ok (varintValue n first (bs.take (n - 1)), bs.drop (n - 1))

/-- `ReadVarint`, on the unread bytes of a stream that ends with a FIN. -/
def readVarint : Lib.Parser UInt8 WireError UInt64
  | [] => .error .eof
  | first :: bs =>
    let n := varintLenFromFirst first
    if n = 1 then .ok (first.toUInt64, bs)
    else if bs.length < n - 1 then .error .unexpectedEOF
    else .ok (varintValue n first (bs.take (n - 1)), bs.drop (n - 1))

/-! ## Round trip -/

@[simp] theorem length_bigEndian (n : Nat) (v : UInt64) : (bigEndian n v).length = n := by
  induction n with
  | zero => rfl
  | succ n ih => simp [bigEndian, ih]

/-- What the first byte of an encoding of at most eight bytes says: its length, and the value
    bits put into it. -/
theorem firstByte_spec : ∀ n : Fin 8, ∀ x : Fin 256, x.val < 2 ^ (7 - n.val) →
    varintLenFromFirst (UInt8.ofNat x.val ||| lenPrefix (n.val + 1)) = n.val + 1 ∧
      (UInt8.ofNat x.val ||| lenPrefix (n.val + 1)) &&& valueMask (n.val + 1) =
        UInt8.ofNat x.val := by
  decide +kernel

theorem shiftIn_toNat {w : UInt64} (b : UInt8) (hw : w.toNat < 2 ^ 56) :
    (w <<< 8 ||| b.toUInt64).toNat = w.toNat * 256 + b.toNat := by
  have hb := b.toNat_lt
  rw [UInt64.toNat_or, UInt64.toNat_shiftLeft]
  have h8 : (8 : UInt64).toNat % 64 = 8 := rfl
  rw [h8, UInt8.toNat_toUInt64, Nat.shiftLeft_eq, Nat.mod_eq_of_lt (by omega), ← Nat.shiftLeft_eq,
    ← Nat.shiftLeft_add_eq_or_of_lt (by omega), Nat.shiftLeft_eq]

variable {n : Nat} {v : UInt64}

theorem byte_toNat (hn : n < 8) (v : UInt64) :
    (v >>> UInt64.ofNat (8 * n)).toUInt8.toNat = v.toNat / 256 ^ n % 256 := by
  have h : (UInt64.ofNat (8 * n)).toNat % 64 = 8 * n := by
    rw [UInt64.toNat_ofNat']
    omega
  rw [UInt64.toNat_toUInt8, UInt64.toNat_shiftRight, h, Nat.shiftRight_eq_div_pow, Nat.pow_mul]

theorem foldl_bigEndian (hn : n ≤ 8) (v w : UInt64) (hw : w.toNat < 256 ^ (8 - n)) :
    ((bigEndian n v).foldl (fun (v : UInt64) b => v <<< 8 ||| b.toUInt64) w).toNat =
      w.toNat * 256 ^ n + v.toNat % 256 ^ n := by
  induction n generalizing w with
  | zero => simp [bigEndian, Nat.mod_one]
  | succ n ih =>
    have hpow : 256 ^ (8 - n) = 256 ^ (8 - (n + 1)) * 256 := by
      rw [← Nat.pow_succ]
      congr 1
      omega
    have hw56 : w.toNat < 2 ^ 56 := by
      refine lt_of_lt_of_le hw ?_
      calc 256 ^ (8 - (n + 1)) ≤ 256 ^ 7 := Nat.pow_le_pow_right (by omega) (by omega)
        _ = 2 ^ 56 := by norm_num
    have hstep := shiftIn_toNat (v >>> UInt64.ofNat (8 * n)).toUInt8 hw56
    rw [byte_toNat (by omega)] at hstep
    rw [bigEndian, foldl_cons, ih (by omega) _ (by rw [hstep, hpow]; omega), hstep]
    -- the digit read is the next one of `v`
    have hsplit : v.toNat % 256 ^ (n + 1) =
        v.toNat / 256 ^ n % 256 * 256 ^ n + v.toNat % 256 ^ n := by
      rw [Nat.pow_succ, Nat.mod_mul, Nat.mul_comm (256 ^ n), Nat.add_comm]
    rw [hsplit, Nat.pow_succ]
    ring

theorem lt_of_varintLen (h : varintLen v ≠ 9) :
    1 ≤ varintLen v ∧ varintLen v ≤ 8 ∧ v.toNat < 2 ^ (7 * varintLen v) := by
  unfold varintLen at h ⊢
  split_ifs at h ⊢ with h₁ h₂ h₃ h₄ h₅ h₆ h₇ h₈ <;> simp_all [UInt64.lt_iff_toNat_lt]

theorem appendVarint_short (h : varintLen v ≠ 9) :
    ∃ first rest, appendVarint v = first :: rest ∧ varintLenFromFirst first = varintLen v ∧
      rest.length + 1 = varintLen v ∧ varintValue (varintLen v) first rest = v ∧
      (varintLen v = 1 → first.toUInt64 = v) := by
  obtain ⟨hpos, hle, hlt⟩ := lt_of_varintLen h
  obtain ⟨k, hk⟩ : ∃ k, varintLen v = k + 1 := ⟨varintLen v - 1, by omega⟩
  rw [hk] at hle hlt
  have happ : appendVarint v =
      ((v >>> UInt64.ofNat (8 * k)).toUInt8 ||| lenPrefix (k + 1)) :: bigEndian k v := by
    simp [appendVarint, hk, show k ≠ 8 by omega, bigEndian]
  -- the first byte holds what is above the `k` bytes after it
  set x := v.toNat / 256 ^ k % 256 with hx
  have hbyte : (v >>> UInt64.ofNat (8 * k)).toUInt8 = UInt8.ofNat x := by
    apply UInt8.toNat_inj.mp
    rw [byte_toNat (by omega), UInt8.toNat_ofNat']
    omega
  have hpow : (2 : Nat) ^ (7 * (k + 1)) = 2 ^ (7 - k) * 256 ^ k := by
    rw [show (256 : Nat) = 2 ^ 8 by norm_num, ← Nat.pow_mul, ← Nat.pow_add]
    congr 1
    omega
  have hxv : v.toNat / 256 ^ k < 2 ^ (7 - k) := by
    rw [Nat.div_lt_iff_lt_mul (by positivity), ← hpow]
    exact hlt
  have hxlt : x < 2 ^ (7 - k) := lt_of_le_of_lt (Nat.mod_le _ _) hxv
  have hx256 : v.toNat / 256 ^ k < 256 :=
    lt_of_lt_of_le hxv (le_trans (Nat.pow_le_pow_right (by omega) (by omega : 7 - k ≤ 7))
      (by norm_num))
  have hxeq : x = v.toNat / 256 ^ k := Nat.mod_eq_of_lt hx256
  obtain ⟨hlen, hbits⟩ := firstByte_spec ⟨k, by omega⟩ ⟨x, by omega⟩ hxlt
  have hxnat : (UInt8.ofNat x).toUInt64.toNat = x := by
    rw [UInt8.toNat_toUInt64, UInt8.toNat_ofNat']
    omega
  have hval : varintValue (k + 1) (UInt8.ofNat x ||| lenPrefix (k + 1)) (bigEndian k v) = v := by
    apply UInt64.toNat_inj.mp
    simp only [varintValue, show k + 1 ≠ 9 by omega, if_false, hbits]
    rw [foldl_bigEndian (by omega) v _ ?_, hxnat, hxeq]
    · rw [Nat.mul_comm]
      exact Nat.div_add_mod _ _
    · rw [hxnat, hxeq]
      refine lt_of_lt_of_le hx256 ?_
      calc (256 : Nat) = 256 ^ 1 := by norm_num
        _ ≤ 256 ^ (8 - k) := Nat.pow_le_pow_right (by omega) (by omega)
  refine ⟨_, _, happ, ?_, ?_, ?_, fun h1 => ?_⟩
  · rw [hbyte, hk, hlen]
  · rw [length_bigEndian, hk]
  · rw [hbyte, hk]
    exact hval
  · have hk0 : k = 0 := by omega
    subst hk0
    rw [hbyte]
    have hz : UInt8.ofNat x ||| lenPrefix (0 + 1) = UInt8.ofNat x := by
      rw [show lenPrefix (0 + 1) = 0 from rfl]
      simp
    rw [hz]
    apply UInt64.toNat_inj.mp
    rw [hxnat, hxeq]
    simp

theorem appendVarint_long (h : varintLen v = 9) : appendVarint v = 0xFF :: bigEndian 8 v ∧
      varintValue 9 0xFF (bigEndian 8 v) = v := by
  refine ⟨by simp [appendVarint, h], ?_⟩
  apply UInt64.toNat_inj.mp
  simp only [varintValue, if_true]
  rw [foldl_bigEndian le_rfl v 0 (by simp)]
  have := v.toNat_lt
  simp only [UInt64.toNat_zero, Nat.zero_mul, Nat.zero_add]
  exact Nat.mod_eq_of_lt (by norm_num; omega)

theorem appendVarint_spec (v : UInt64) :
    ∃ first rest, appendVarint v = first :: rest ∧
      rest.length = varintLenFromFirst first - 1 ∧
      varintValue (varintLenFromFirst first) first rest = v ∧
      (varintLenFromFirst first = 1 → first.toUInt64 = v) := by
  by_cases h : varintLen v = 9
  · obtain ⟨happ, hval⟩ := appendVarint_long h
    have hff : varintLenFromFirst 0xFF = 9 := by decide
    refine ⟨_, _, happ, ?_, ?_, fun h1 => ?_⟩
    · rw [hff, length_bigEndian]
    · exact hval
    · cases h1
  · obtain ⟨first, rest, happ, hlen, hrest, hval, hone⟩ := appendVarint_short h
    refine ⟨first, rest, happ, by omega, ?_, fun h1 => hone (by omega)⟩
    rw [hlen]
    exact hval

theorem reads_parseVarint (v : UInt64) : Lib.Reads parseVarint (appendVarint v) v := by
  obtain ⟨first, rest, happ, hlen, hval, -⟩ := appendVarint_spec v
  intro tail
  rw [happ]
  simp only [cons_append, parseVarint, length_append]
  rw [if_neg (by omega), ← hlen, take_left, drop_left, hval]

theorem reads_readVarint (v : UInt64) : Lib.Reads readVarint (appendVarint v) v := by
  obtain ⟨first, rest, happ, hlen, hval, hone⟩ := appendVarint_spec v
  intro tail
  rw [happ]
  simp only [cons_append, readVarint, length_append]
  split_ifs with h1 h2
  · have hnil : rest = [] := length_eq_zero_iff.mp (by omega)
    rw [hone h1, hnil, nil_append]
  · omega
  · rw [← hlen, take_left, drop_left, hval]

/-! ## The shortest form -/

theorem length_appendVarint (v : UInt64) : (appendVarint v).length = varintLen v := by
  by_cases h : varintLen v = 9
  · rw [(appendVarint_long h).1, length_cons, length_bigEndian, h]
  · obtain ⟨first, rest, happ, -, hlen, -, -⟩ := appendVarint_short h
    rw [happ, length_cons, hlen]

theorem varintLen_pos (v : UInt64) : 1 ≤ varintLen v := by
  unfold varintLen
  split_ifs <;> omega

theorem varintLen_le_nine (v : UInt64) : varintLen v ≤ 9 := by
  unfold varintLen
  split_ifs <;> omega

theorem le_of_varintLen (h : varintLen v ≠ 1) : 2 ^ (7 * (varintLen v - 1)) ≤ v.toNat := by
  unfold varintLen at h ⊢
  split_ifs at h ⊢ with h₁ h₂ h₃ h₄ h₅ h₆ h₇ h₈ <;> simp_all [UInt64.le_iff_toNat_le]

theorem varintLen_le (hpos : 1 ≤ n) (hlt : n ≤ 8 → v.toNat < 2 ^ (7 * n)) : varintLen v ≤ n := by
  by_contra hlen
  have hnine := varintLen_le_nine v
  have hle := le_of_varintLen (v := v) (by omega)
  have hmono : 2 ^ (7 * n) ≤ 2 ^ (7 * (varintLen v - 1)) :=
    Nat.pow_le_pow_right (by omega) (by omega)
  omega

theorem foldl_toNat_lt {bits : Nat} (bs : List UInt8) :
    ∀ {w : UInt64}, w.toNat < 2 ^ bits → bits + 8 * bs.length ≤ 64 →
      (bs.foldl (fun (v : UInt64) b => v <<< 8 ||| b.toUInt64) w).toNat <
        2 ^ (bits + 8 * bs.length) := by
  induction bs generalizing bits with
  | nil =>
    intro w hw _
    exact hw
  | cons b bs ih =>
    intro w hw hbits
    rw [length_cons] at hbits
    have hw56 : w.toNat < 2 ^ 56 :=
      lt_of_lt_of_le hw (Nat.pow_le_pow_right (by omega) (by omega))
    have hb := b.toNat_lt
    have hstep : (w <<< 8 ||| b.toUInt64).toNat < 2 ^ (bits + 8) := by
      rw [shiftIn_toNat b hw56, Nat.pow_add]
      omega
    have := ih hstep (by omega)
    rwa [foldl_cons, length_cons, show bits + 8 * (bs.length + 1) =
      bits + 8 + 8 * bs.length by omega]

theorem varintValue_lt (hpos : 1 ≤ n) (hn : n ≤ 8) (first : UInt8) {rest : List UInt8}
    (hrest : rest.length = n - 1) : (varintValue n first rest).toNat < 2 ^ (7 * n) := by
  have hmask : (first &&& valueMask n).toUInt64.toNat < 2 ^ (8 - n) := by
    refine lt_of_le_of_lt Nat.and_le_right ?_
    interval_cases n <;> decide
  unfold varintValue
  rw [if_neg (by omega)]
  have := foldl_toNat_lt rest hmask (by omega)
  rwa [hrest, show 8 - n + 8 * (n - 1) = 7 * n by omega] at this

theorem varintLenFromFirst_bounds (first : UInt8) :
    1 ≤ varintLenFromFirst first ∧ varintLenFromFirst first ≤ 9 := by
  unfold varintLenFromFirst leadingZeros8
  split_ifs <;> simp

/-- **`ParseVarint` takes at least the bytes `AppendVarint` would write.** -/
theorem yields_parseVarint : Lib.Yields parseVarint fun v n => n = (appendVarint v).length := by
  intro xs v ys h
  cases xs with
  | nil => cases h
  | cons first bs =>
    simp only [parseVarint] at h
    split_ifs at h with hshort
    cases h
    have hpos := (varintLenFromFirst_bounds first).1
    have hlen : (bs.take (varintLenFromFirst first - 1)).length = varintLenFromFirst first - 1 := by
      rw [length_take]
      omega
    refine ⟨_, rfl, ?_⟩
    have hle := varintLen_le hpos fun h8 => varintValue_lt hpos h8 first hlen
    rw [length_appendVarint, length_drop, length_cons]
    omega

/-- Lengths with room for `v`: seven bits a byte up to eight bytes, 64 bits in nine. -/
theorem varintLen_le_iff (hpos : 1 ≤ n) : varintLen v ≤ n ↔ (n ≤ 8 → v.toNat < 2 ^ (7 * n)) := by
  refine ⟨fun hle hn => ?_, varintLen_le hpos⟩
  obtain ⟨-, -, hlt⟩ := lt_of_varintLen (v := v) (by omega)
  exact lt_of_lt_of_le hlt (Nat.pow_le_pow_right (by omega) (by omega))

theorem isLeast_varintLen (v : UInt64) :
    IsLeast { n | ∃ xs, xs.length = n ∧ Lib.Reads parseVarint xs v } (varintLen v) := by
  refine ⟨⟨_, length_appendVarint v, reads_parseVarint v⟩, ?_⟩
  rintro n ⟨xs, rfl, hreads⟩
  obtain ⟨m, rfl, hm⟩ := yields_parseVarint xs v [] hreads.run_nil
  rw [← length_appendVarint]
  exact hm

/-! ## The two decoders -/

/-- A first byte that announces no other has no prefix bit to mask. -/
theorem varintValue_one {first : UInt8} (h : varintLenFromFirst first = 1) :
    varintValue 1 first [] = first.toUInt64 := by
  have hmask : ∀ x : Fin 256, varintLenFromFirst (UInt8.ofNat x.val) = 1 →
      UInt8.ofNat x.val &&& valueMask 1 = UInt8.ofNat x.val := by
    decide +kernel
  have hfirst := hmask ⟨first.toNat, first.toNat_lt⟩
  rw [UInt8.ofNat_toNat] at hfirst
  show (first &&& valueMask 1).toUInt64 = _
  rw [hfirst h]

theorem parseVarint_readVarint (first : UInt8) (bs : List UInt8) :
    (bs.length < varintLenFromFirst first - 1 ∧
      parseVarint (first :: bs) = .error .shortBuffer ∧
      readVarint (first :: bs) = .error .unexpectedEOF) ∨
    (varintLenFromFirst first - 1 ≤ bs.length ∧
      parseVarint (first :: bs) = readVarint (first :: bs) ∧
      ∃ v, readVarint (first :: bs) = .ok (v, bs.drop (varintLenFromFirst first - 1))) := by
  by_cases hshort : bs.length < varintLenFromFirst first - 1
  · refine .inl ⟨hshort, ?_, ?_⟩
    · rw [parseVarint, if_pos hshort]
    · rw [readVarint, if_neg (by omega), if_pos hshort]
  · refine .inr ⟨by omega, ?_⟩
    rw [parseVarint, if_neg hshort, readVarint]
    by_cases hone : varintLenFromFirst first = 1
    · simp [hone, varintValue_one hone]
    · rw [if_neg hone, if_neg hshort]
      exact ⟨rfl, _, rfl⟩

/-- **The varint codec.** `AppendVarint` writes `VarintLen` bytes, the fewest that have room for
    the value and the fewest that are decoded to it; they are read back, whatever follows. On any
    bytes `ParseVarint` and `ReadVarint` both fail, or both return one value and leave what comes
    after the length that the first byte announces. -/
theorem varint_codec :
    (∀ v : UInt64, (appendVarint v).length = varintLen v ∧
      (∀ n, 1 ≤ n → (varintLen v ≤ n ↔ (n ≤ 8 → v.toNat < 2 ^ (7 * n)))) ∧
      IsLeast { n | ∃ xs, xs.length = n ∧ Lib.Reads parseVarint xs v } (varintLen v) ∧
      ∀ tail, parseVarint (appendVarint v ++ tail) = .ok (v, tail)) ∧
    ∀ bs : List UInt8,
      (∃ e e', parseVarint bs = .error e ∧ readVarint bs = .error e') ∨
      ∃ first rest v, bs = first :: rest ∧ varintLenFromFirst first ≤ bs.length ∧
        parseVarint bs = .ok (v, bs.drop (varintLenFromFirst first)) ∧
        readVarint bs = .ok (v, bs.drop (varintLenFromFirst first)) := by
  refine ⟨fun v => ⟨length_appendVarint v, fun n => varintLen_le_iff, isLeast_varintLen v,
    reads_parseVarint v⟩, fun bs => ?_⟩
  cases bs with
  | nil => exact .inl ⟨_, _, rfl, rfl⟩
  | cons first bs =>
    rcases parseVarint_readVarint first bs with ⟨-, hparse, hread⟩ | ⟨hlen, heq, v, hread⟩
    · exact .inl ⟨_, _, hparse, hread⟩
    · obtain ⟨k, hk⟩ : ∃ k, varintLenFromFirst first = k + 1 :=
        ⟨_, (Nat.succ_pred_eq_of_pos (varintLenFromFirst_bounds first).1).symm⟩
      rw [hk] at hlen hread
      refine .inr ⟨first, bs, v, rfl, ?_, ?_, ?_⟩
      · rw [hk, length_cons]
        omega
      · rw [heq, hk]
        exact hread
      · rw [hk]
        exact hread

end MoqGo.Wire
