import Mathlib.Data.List.Infix

/-!
# Track namespaces (`pkg/moqt/wire/namespace.go`)

A namespace is a tuple of fields, each an opaque byte string, and one covers another if it is
a prefix of it field by field.
-/

namespace MoqGo.Wire

abbrev TrackNamespace := List (List UInt8)

instance TrackNamespace.lawfulBEq : LawfulBEq TrackNamespace := inferInstance

/-- `HasPrefix`. -/
def TrackNamespace.hasPrefix : TrackNamespace → TrackNamespace → Bool
  | _, [] => true
  | [], _ :: _ => false
  | f :: ns, p :: pfx => f == p && hasPrefix ns pfx

@[simp] theorem TrackNamespace.hasPrefix_iff {ns pfx : TrackNamespace} :
    ns.hasPrefix pfx = true ↔ pfx <+: ns := by
  fun_induction TrackNamespace.hasPrefix ns pfx with
  | case1 ns => simp
  | case2 p pfx => simp
  | case3 f ns p pfx ih =>
    rw [Bool.and_eq_true, beq_iff_eq, ih, List.cons_prefix_cons, eq_comm]

/-- `suffixAfter`: the fields of `ns` behind the first `len(pfx)`. -/
def suffixAfter (ns pfx : TrackNamespace) : TrackNamespace := ns.drop pfx.length

theorem append_suffixAfter {ns pfx : TrackNamespace} (h : pfx <+: ns) :
    pfx ++ suffixAfter ns pfx = ns := by
  obtain ⟨t, rfl⟩ := h
  rw [suffixAfter, List.drop_left]

end MoqGo.Wire
