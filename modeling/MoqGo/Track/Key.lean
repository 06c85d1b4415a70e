import MoqGo.Wire.Fields

/-!
# Track identity (`pkg/moqt/track/track.go`)

A `Key` holds the namespace as it is written on the wire, so that it can be compared and used in
maps. Two tracks with one key would be **one track** to every registry, cache and lookup: that
there are none comes down to the wire encodings being prefix codes, lengths first and then what
they are the lengths of.
-/

namespace MoqGo.Track

open Wire

/-- `FullTrackName`. -/
structure FullTrackName where
  ns : TrackNamespace
  name : List UInt8
deriving DecidableEq, Repr

/-- `Key`: the namespace as its encoding. -/
structure Key where
  ns : List UInt8
  name : List UInt8
deriving DecidableEq, Repr

/-- `FullTrackName.Key`. -/
def FullTrackName.key (n : FullTrackName) : Key :=
  ⟨appendTrackNamespace n.ns, n.name⟩

/-- `Key.Bytes`, with `binary.AppendUvarint` as the argument. -/
def Key.bytes (appendUvarint : UInt64 → List UInt8) (k : Key) : List UInt8 :=
  appendUvarint (UInt64.ofNat k.ns.length) ++ k.ns ++ k.name

/-- The number of fields and their lengths can be written as varints. -/
structure Representable (ns : TrackNamespace) : Prop where
  fields : ns.length < 2 ^ 64
  lengths : ∀ f ∈ ns, f.length < 2 ^ 64

theorem prefixCode_appendVarint : Lib.PrefixCode (fun _ => True) appendVarint :=
  Lib.prefixCode_of_reads fun v _ => reads_parseVarint v

theorem ofNat_inj {m n : Nat} (hm : m < 2 ^ 64) (hn : n < 2 ^ 64)
    (h : UInt64.ofNat m = UInt64.ofNat n) : m = n := by
  rw [← UInt64.toNat_ofNat_of_lt' hm, h, UInt64.toNat_ofNat_of_lt' hn]

theorem prefixCode_appendTrackNamespace : Lib.PrefixCode Representable appendTrackNamespace := by
  intro ns ms xs ys hns hms heq
  have hfield : Lib.PrefixCode (fun f => f.length < 2 ^ 64) appendVarintBytes :=
    Lib.prefixCode_of_reads fun f hf => Reader.reads_varintBytes hf
  simp only [appendTrackNamespace, List.append_assoc] at heq
  obtain ⟨hcount, heq⟩ := prefixCode_appendVarint trivial trivial heq
  exact hfield.flatMap (ofNat_inj hns.fields hms.fields hcount) hns.lengths hms.lengths heq

/-! ## What the reader accepts -/

variable {ns ms : TrackNamespace} {rest xs : List UInt8}

theorem eq_of_trackNamespaceFields (hns : ∀ f ∈ ns, f.length < 2 ^ 64) :
    ∀ {i total : Nat} {ms : TrackNamespace}, Reader.trackNamespaceFields ns.length i total
      (ns.flatMap appendVarintBytes ++ rest) = .ok (ms, xs) → ms = ns := by
  induction ns with
  | nil =>
    intro i total ms h
    cases h
    rfl
  | cons f ns ih =>
    intro i total ms h
    rw [List.forall_mem_cons] at hns
    rw [List.flatMap_cons, List.append_assoc] at h
    obtain ⟨g, ys, hg, h⟩ := Lib.Parser.bind_ok h
    rw [(Reader.reads_varintBytes hns.1).mapError _] at hg
    cases hg
    split_ifs at h
    · cases h
    · cases h
    · obtain ⟨ms', zs, hms, h⟩ := Lib.Parser.bind_ok h
      cases h
      rw [ih hns.2 hms]

theorem eq_of_trackNamespace (hns : Representable ns)
    (h : Reader.trackNamespace (appendTrackNamespace ns ++ rest) = .ok (ms, xs)) : ms = ns := by
  rw [appendTrackNamespace, List.append_assoc] at h
  obtain ⟨count, ys, hcount, h⟩ := Lib.Parser.bind_ok h
  rw [(reads_parseVarint _).mapError _] at hcount
  cases hcount
  split_ifs at h
  · cases h
  · rw [UInt64.toNat_ofNat_of_lt' hns.fields] at h
    exact eq_of_trackNamespaceFields hns.lengths h

/-! ## No two tracks share an identity -/

/-- **Track identity is injective.** Keys are equal for equal namespaces and names only, and
    their bytes for equal keys only; no namespace's encoding continues another's. The reader
    takes the encoding of a namespace exactly if it is within the limits, and returns it. -/
theorem track_identity {appendUvarint : UInt64 → List UInt8}
    (hcode : Lib.PrefixCode (fun _ => True) appendUvarint) :
    (∀ a b : FullTrackName, Representable a.ns → Representable b.ns →
      (a.key = b.key ↔ a.ns = b.ns ∧ a.name = b.name)) ∧
    (∀ k l : Key, k.ns.length < 2 ^ 64 → l.ns.length < 2 ^ 64 →
      (k.bytes appendUvarint = l.bytes appendUvarint ↔ k = l)) ∧
    (∀ ns ms : TrackNamespace, Representable ns → Representable ms →
      appendTrackNamespace ns <+: appendTrackNamespace ms → ns = ms) ∧
    ∀ (ns : TrackNamespace) (rest : List UInt8), Representable ns →
      ((∃ r, Reader.trackNamespace (appendTrackNamespace ns ++ rest) = .ok r) ↔ ns.Within) ∧
      (ns.Within →
        Reader.trackNamespace (appendTrackNamespace ns ++ rest) = .ok (ns, rest)) := by
  refine ⟨fun a b ha hb => ⟨fun h => ?_, fun h => ?_⟩, fun k l hk hl => ⟨fun h => ?_, ?_⟩, ?_, ?_⟩
  · obtain ⟨hns, hname⟩ := Key.mk.injEq .. ▸ h
    exact ⟨(prefixCode_appendTrackNamespace ha hb (congrArg (· ++ []) hns)).1, hname⟩
  · rw [FullTrackName.key, FullTrackName.key, h.1, h.2]
  · simp only [Key.bytes, List.append_assoc] at h
    obtain ⟨hlen, h⟩ := hcode trivial trivial h
    obtain ⟨hns, hname⟩ := List.append_inj h (ofNat_inj hk hl hlen)
    cases k
    cases l
    simp_all
  · rintro rfl
    rfl
  · rintro ns ms hns hms ⟨xs, hxs⟩
    rw [← List.append_nil (appendTrackNamespace ms)] at hxs
    exact (prefixCode_appendTrackNamespace hns hms hxs).1
  · intro ns rest hns
    refine ⟨⟨?_, fun h => ⟨_, Reader.reads_trackNamespace h rest⟩⟩,
      fun h => Reader.reads_trackNamespace h rest⟩
    rintro ⟨⟨ms, xs⟩, hr⟩
    obtain ⟨n, ⟨hwithin, -⟩, -⟩ := Reader.yields_trackNamespace _ _ _ hr
    rwa [eq_of_trackNamespace hns hr] at hwithin

/-- The example of the source: `("a", "b")` with the name `c`, and `("a")` with the name `bc`. -/
theorem track_identity_split :
    FullTrackName.key ⟨[[0x61], [0x62]], [0x63]⟩ ≠ FullTrackName.key ⟨[[0x61]], [0x62, 0x63]⟩ := by
  have ha : Representable [[0x61], [0x62]] := ⟨by decide, by decide⟩
  have hb : Representable [[0x61]] := ⟨by decide, by decide⟩
  intro h
  have := ((track_identity prefixCode_appendVarint).1 ⟨_, _⟩ ⟨_, _⟩ ha hb).mp h
  exact absurd this.1 (by decide)

end MoqGo.Track
