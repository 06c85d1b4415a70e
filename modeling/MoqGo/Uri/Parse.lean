import Mathlib.Tactic.SplitIfs

/-!
# moqt URIs (`pkg/moqt/uri/uri.go`)

`Parse` takes authority, path and query as `url.Parse` keeps them, and the fragment as it is
**percent-decoded**; `String` writes all of them out again as they are. Path and query come back.
The fragment does if decoding it a second time changes nothing, which is where it holds no `%`, and
the authority, which `url.Parse` decodes as well, if no `%` is left in it.

Of `url.Parse` the cut at the first `#` and the decoding of what follows are modelled. What it makes
of the text in front is the function `front` of a `URLParser`, with what is used of it: the escaped
path and the query are kept as they are written, and the host is decoded.
-/

namespace MoqGo.Uri

open List

def ascii (s : List Char) : List UInt8 := s.map Char.toUInt8

/-- `Scheme`. -/
def scheme : List UInt8 := ascii ['m', 'o', 'q', 't']

/-- `DefaultPort`. -/
def defaultPort : List UInt8 := ascii ['4', '4', '3']

/-- `strings.Cut`, at a byte. -/
def cut (sep : UInt8) : List UInt8 → Option (List UInt8 × List UInt8)
  | [] => none
  | c :: s => if c = sep then some ([], s) else (cut sep s).map fun r => (c :: r.1, r.2)

/-! ## `net/url` -/

def unhex (c : UInt8) : Option UInt8 :=
  if 0x30 ≤ c ∧ c ≤ 0x39 then some (c - 0x30)
  else if 0x61 ≤ c ∧ c ≤ 0x66 then some (c - 0x61 + 10)
  else if 0x41 ≤ c ∧ c ≤ 0x46 then some (c - 0x41 + 10)
  else none

/-- `url.unescape` of a fragment. -/
def unescape : List UInt8 → Option (List UInt8)
  | [] => some []
  | c :: s =>
    if c = 0x25 then
      match s with
      | hi :: lo :: s => do
        let h ← unhex hi
        let l ← unhex lo
        let t ← unescape s
        return (h <<< 4 ||| l) :: t
      | _ => none
    else (unescape s).map (c :: ·)

/-- `splitHostPort`: a port is what follows the last colon, if it has only digits. -/
def splitHostPort (hostPort : List UInt8) : List UInt8 × List UInt8 :=
  let (host, port) :=
    match cut 0x3A hostPort.reverse with
    | some (port, host) =>
      if port.all fun c => 0x30 ≤ c && c ≤ 0x39 then (host.reverse, port.reverse)
      else (hostPort, [])
    | none => (hostPort, [])
  (if host.head? = some 0x5B ∧ host.getLast? = some 0x5D then host.tail.dropLast else host, port)

/-- What `Parse` uses of a `url.URL` without its fragment. -/
structure URL where
  scheme : List UInt8
  nonHierarchical : List UInt8
  host : List UInt8
  escapedPath : List UInt8
  rawQuery : List UInt8
deriving DecidableEq, Repr

namespace URL

/-- `Hostname`. -/
def hostname (v : URL) : List UInt8 := (splitHostPort v.host).1

/-- `Port`. -/
def port (v : URL) : List UInt8 := (splitHostPort v.host).2

/-- A hierarchical URL put together again. -/
def text (v : URL) : List UInt8 :=
  v.scheme ++ ascii [':', '/', '/'] ++ v.host ++ v.escapedPath ++
    if v.rawQuery = [] then [] else 0x3F :: v.rawQuery

end URL

/-- `url.Parse`, of a text without a fragment. -/
structure URLParser where
  front : List UInt8 → Option URL
  /-- `parseAuthority`, without the user information. -/
  host : List UInt8 → Option (List UInt8)
  /-- No part is given a `#` that the text does not have. -/
  hash : ∀ {raw v}, front raw = some v → v.scheme = scheme → 0x23 ∉ raw → 0x23 ∉ v.text
  host_of_front : ∀ {raw v}, front raw = some v → v.host ≠ [] →
    ∃ authority, host authority = some v.host
  /-- `EscapedPath` is a valid encoding and `RawQuery` is not decoded, so both are read as they are
      behind the authority. -/
  front_text : ∀ {raw v}, front raw = some v → v.host ≠ [] → v.scheme = scheme →
    front v.text = (host v.host).map fun host => { v with host }
  /-- A host without escapes is valid as it is. -/
  host_self : ∀ {authority host'}, host authority = some host' → 0x25 ∉ host' →
    host host' = some host'
  /-- Each `%` is read with the two digits of its triplet. -/
  host_length : ∀ {authority host'}, host authority = some host' → 0x25 ∈ authority →
    host'.length < authority.length

/-! ## URIs -/

/-- `Fragment`. -/
structure Fragment where
  type : List UInt8
  value : List UInt8
deriving DecidableEq, Repr

/-- `URI`. -/
structure URI where
  authority : List UInt8
  host : List UInt8
  port : List UInt8
  path : List UInt8
  rawQuery : List UInt8
  fragment : Option Fragment
deriving DecidableEq, Repr

inductive ParseError
  | url
  | scheme (s : List UInt8)
  | notHierarchical
  | emptyHost
  | fragmentColon (frag : List UInt8)
  | fragmentType (typ : List UInt8)
deriving DecidableEq, Repr

/-- `url.Parse`: the URL without its fragment, and the fragment. -/
def urlParse (net : URLParser) (raw : List UInt8) : Option (URL × List UInt8) :=
  match cut 0x23 raw with
  | none => (net.front raw).map (·, [])
  | some (before, frag) => do
    let u ← net.front before
    let fragment ← unescape frag
    return (u, fragment)

/-- `validFragmentType`. -/
def validFragmentType (s : List UInt8) : Bool :=
  s != [] && s.all fun c =>
    (decide (0x61 ≤ c) && decide (c ≤ 0x7A)) || (decide (0x30 ≤ c) && decide (c ≤ 0x39)) ||
      c == 0x2D

/-- `parseFragment`. -/
def parseFragment (frag : List UInt8) : Except ParseError Fragment :=
  match cut 0x3A frag with
  | none => .error (.fragmentColon frag)
  | some (typ, val) =>
    if validFragmentType typ then .ok ⟨typ, val⟩ else .error (.fragmentType typ)

/-- `Parse`, up to the fragment. -/
def parseURL (u : URL) : Except ParseError URI :=
  if u.scheme ≠ scheme then .error (.scheme u.scheme)
  else if u.nonHierarchical ≠ [] then .error .notHierarchical
  else if u.hostname = [] then .error .emptyHost
  else .ok {
    authority := u.host
    host := u.hostname
    port := if u.port = [] then defaultPort else u.port
    path := u.escapedPath
    rawQuery := u.rawQuery
    fragment := none }

/-- `Parse`. -/
def parse (net : URLParser) (raw : List UInt8) : Except ParseError URI :=
  match urlParse net raw with
  | none => .error .url
  | some (u, fragment) => do
    let out ← parseURL u
    if 0x23 ∈ raw then
      let frag ← parseFragment fragment
      return { out with fragment := some frag }
    else return out

/-- The fragment as `String` writes it. -/
def Fragment.text (f : Fragment) : List UInt8 := f.type ++ 0x3A :: f.value

namespace URI

/-- `URI.String`, up to the fragment. -/
def base (u : URI) : List UInt8 :=
  scheme ++ ascii [':', '/', '/'] ++ u.authority ++ u.path ++
    if u.rawQuery = [] then [] else 0x3F :: u.rawQuery

/-- `URI.String`. -/
def string (u : URI) : List UInt8 :=
  u.base ++
    match u.fragment with
    | none => []
    | some f => 0x23 :: f.text

end URI

/-! ## Cutting and decoding -/

variable {s t before after : List UInt8} {sep : UInt8}

theorem cut_append (h : sep ∉ before) :
    cut sep (before ++ sep :: after) = some (before, after) := by
  induction before with
  | nil => simp [cut]
  | cons c before ih =>
    rw [mem_cons, not_or] at h
    rw [cons_append, cut, if_neg (Ne.symm h.1), ih h.2]
    rfl

theorem cut_eq_none : cut sep s = none ↔ sep ∉ s := by
  induction s with
  | nil => simp [cut]
  | cons c s ih =>
    rw [cut, mem_cons, not_or, ← ih]
    split_ifs with hc
    · simp [hc]
    · simp [Ne.symm hc]

theorem eq_of_cut (h : cut sep s = some (before, after)) :
    s = before ++ sep :: after ∧ sep ∉ before := by
  induction s generalizing before with
  | nil => cases h
  | cons c s ih =>
    rw [cut] at h
    split_ifs at h with hc
    · cases h
      exact ⟨by rw [hc, nil_append], not_mem_nil⟩
    · obtain ⟨⟨b, a⟩, hcut, hr⟩ := Option.map_eq_some_iff.mp h
      cases hr
      obtain ⟨rfl, hb⟩ := ih hcut
      exact ⟨rfl, not_mem_cons_of_ne_of_not_mem (Ne.symm hc) hb⟩

/-- Each `%` takes two bytes with it. -/
theorem length_unescape (h : unescape s = some t) :
    t.length ≤ s.length ∧ (0x25 ∈ s → t.length < s.length) := by
  fun_induction unescape s generalizing t with
  | case1 =>
    cases h
    simp
  | case2 hi lo s ih =>
    simp only [Option.bind_eq_bind, Option.bind_eq_some_iff] at h
    obtain ⟨x, -, y, -, t', ht', h⟩ := h
    cases h
    have := (ih ht').1
    simp only [length_cons]
    omega
  | case3 => cases h
  | case4 c s hc ih =>
    obtain ⟨t', ht', rfl⟩ := Option.map_eq_some_iff.mp h
    obtain ⟨hle, hlt⟩ := ih ht'
    refine ⟨Nat.succ_le_succ hle, fun hmem => Nat.succ_lt_succ (hlt ?_)⟩
    exact (mem_cons.mp hmem).resolve_left (Ne.symm hc)

theorem unescape_eq_self_iff : unescape s = some s ↔ 0x25 ∉ s := by
  refine ⟨fun h hmem => absurd ((length_unescape h).2 hmem) (Nat.lt_irrefl _), fun h => ?_⟩
  induction s with
  | nil => rfl
  | cons c s ih =>
    rw [mem_cons, not_or] at h
    unfold unescape
    rw [if_neg (Ne.symm h.1), ih h.2]
    rfl

theorem not_mem_of_validFragmentType (h : validFragmentType s = true) : 0x3A ∉ s ∧ 0x25 ∉ s := by
  rw [validFragmentType, Bool.and_eq_true, List.all_eq_true] at h
  exact ⟨fun hmem => absurd (h.2 _ hmem) (by decide), fun hmem => absurd (h.2 _ hmem) (by decide)⟩

theorem parseFragment_iff {f : Fragment} :
    parseFragment s = .ok f ↔ s = f.text ∧ validFragmentType f.type = true := by
  constructor
  · intro h
    rw [parseFragment] at h
    split at h
    · cases h
    · next typ val hcut =>
      split_ifs at h with hvalid
      cases h
      exact ⟨(eq_of_cut hcut).1, hvalid⟩
  · rintro ⟨rfl, hvalid⟩
    rw [parseFragment, Fragment.text, cut_append (not_mem_of_validFragmentType hvalid).1]
    exact if_pos hvalid

/-! ## Round trip -/

variable {raw : List UInt8} {net : URLParser} {u : URI} {v : URL}

/-- A URL is read from its text exactly if its host is not decoded further. -/
theorem URLParser.front_text_iff (h : net.front raw = some v) (hhost : v.host ≠ [])
    (hscheme : v.scheme = scheme) : net.front v.text = some v ↔ 0x25 ∉ v.host := by
  rw [net.front_text h hhost hscheme]
  constructor
  · intro hv hmem
    obtain ⟨host, hread, hv⟩ := Option.map_eq_some_iff.mp hv
    have hshort := net.host_length hread hmem
    rw [show host = v.host from congrArg URL.host hv] at hshort
    exact absurd hshort (Nat.lt_irrefl _)
  · intro hnone
    obtain ⟨authority, hread⟩ := net.host_of_front h hhost
    rw [net.host_self hread hnone]
    rfl

theorem parseURL_ok (h : parseURL v = .ok u) :
    v = ⟨scheme, [], u.authority, u.path, u.rawQuery⟩ ∧ u.fragment = none ∧ v.host ≠ [] := by
  unfold parseURL at h
  generalize (if v.port = [] then defaultPort else v.port) = port at h
  split_ifs at h with hscheme hflat hhost
  cases h
  obtain ⟨⟩ := v
  cases Classical.not_not.mp hscheme
  cases Classical.not_not.mp hflat
  exact ⟨rfl, rfl, fun hnil => hhost (by rw [URL.hostname, hnil]; rfl)⟩

theorem parse_plain_iff (h : 0x23 ∉ raw) :
    parse net raw = .ok u ↔ ∃ v, net.front raw = some v ∧ parseURL v = .ok u := by
  simp only [parse, urlParse, cut_eq_none.mpr h, h, if_false]
  cases hfront : net.front raw with
  | none => simp
  | some v => cases hv : parseURL v <;> simp [hv, Bind.bind, Except.bind, pure, Except.pure]

/-- With a fragment, `Parse` is what it is on the text in front, and the fragment decoded. -/
theorem parse_hash_iff (hbefore : 0x23 ∉ before) :
    parse net (before ++ 0x23 :: s) = .ok u ↔
      parse net before = .ok { u with fragment := none } ∧
        ∃ t f, unescape s = some t ∧ parseFragment t = .ok f ∧ u.fragment = some f := by
  have hin : 0x23 ∈ before ++ 0x23 :: s := by simp
  rw [parse_plain_iff hbefore]
  simp only [parse, urlParse, cut_append hbefore, hin, if_true]
  cases net.front before with
  | none => simp
  | some v =>
    cases unescape s with
    | none => simp
    | some t =>
      cases hv : parseURL v with
      | error e => simp [hv, Bind.bind, Except.bind]
      | ok out =>
        have hout := (parseURL_ok hv).2.1
        obtain ⟨⟩ := u
        obtain ⟨⟩ := out
        cases hout
        cases hp : parseFragment t <;>
          simp [hv, hp, Bind.bind, Except.bind, pure, Except.pure, and_assoc, eq_comm]

theorem parse_ok (h : parse net raw = .ok u) : ∃ before, 0x23 ∉ before ∧
    parse net before = .ok { u with fragment := none } ∧
      ∀ f ∈ u.fragment, validFragmentType f.type = true := by
  cases hcut : cut 0x23 raw with
  | none =>
    have hraw := cut_eq_none.mp hcut
    obtain ⟨v, -, hv⟩ := (parse_plain_iff hraw).mp h
    have hnone := (parseURL_ok hv).2.1
    refine ⟨raw, hraw, ?_, by simp [hnone]⟩
    rwa [← hnone]
  | some r =>
    obtain ⟨rfl, hbefore⟩ := eq_of_cut hcut
    obtain ⟨hparse, t, f, -, hp, hf⟩ := (parse_hash_iff hbefore).mp h
    refine ⟨r.1, hbefore, hparse, fun g hg => ?_⟩
    cases hf.symm.trans hg
    exact (parseFragment_iff.mp hp).2

/-- **A URI that `Parse` returned is parsed from what `String` writes exactly if neither its
    authority nor its fragment has a `%`.** -/
theorem parse_string_iff (h : parse net raw = .ok u) :
    parse net u.string = .ok u ↔ 0x25 ∉ u.authority ∧ ∀ f ∈ u.fragment, 0x25 ∉ f.value := by
  obtain ⟨before, hbefore, hparse, hvalid⟩ := parse_ok h
  obtain ⟨v, hfront, hv⟩ := (parse_plain_iff hbefore).mp hparse
  obtain ⟨hparts, -, hhost⟩ := parseURL_ok hv
  cases hparts
  have hhash : 0x23 ∉ u.base := net.hash hfront rfl hbefore
  have hread : parse net u.base = .ok { u with fragment := none } ↔ 0x25 ∉ u.authority := by
    refine .trans ?_ (net.front_text_iff hfront hhost rfl)
    rw [parse_plain_iff hhash]
    constructor
    · rintro ⟨w, hw, hok⟩
      rwa [(parseURL_ok hok).1] at hw
    · intro hself
      exact ⟨_, hself, hv⟩
  cases hf : u.fragment with
  | none =>
    have hsame : { u with fragment := none } = u := by rw [← hf]
    rw [hsame] at hread
    simp [URI.string, hf, hread]
  | some f =>
    have hvalid := hvalid f hf
    have htext : unescape f.text = some f.text ↔ 0x25 ∉ f.value := by
      rw [unescape_eq_self_iff, Fragment.text]
      simp [(not_mem_of_validFragmentType hvalid).2]
    simp only [URI.string, hf, parse_hash_iff hhash, hread, Option.mem_some, forall_eq']
    refine and_congr_right fun _ => ⟨?_, fun hvalue => ?_⟩
    · rintro ⟨t, g, ht, hp, hg⟩
      cases hg
      rw [(parseFragment_iff.mp hp).1] at ht
      exact htext.mp ht
    · exact ⟨_, f, htext.mpr hvalue, parseFragment_iff.mpr ⟨rfl, hvalid⟩, rfl⟩

/-- A host, decoded like a fragment. -/
def loneHost (authority : List UInt8) : Option (List UInt8) :=
  (unescape authority).filter fun host => decide (0x23 ∉ host)

/-- A `url.Parse` that knows only URLs of a scheme and a host. -/
def lone : URLParser where
  front raw :=
    if raw.take 7 = scheme ++ ascii [':', '/', '/'] then
      (loneHost (raw.drop 7)).map (⟨scheme, [], ·, [], []⟩)
    else none
  host := loneHost
  hash {raw v} h _ _ := by
    split_ifs at h
    obtain ⟨host, hhost, rfl⟩ := Option.map_eq_some_iff.mp h
    have hnone : 0x23 ∉ host := by simpa using (Option.filter_eq_some_iff.mp hhost).2
    have hfirst : 0x23 ∉ scheme ∧ 0x23 ∉ ascii [':', '/', '/'] := by decide
    simp [URL.text, hfirst, hnone]
  host_of_front {raw v} h _ := by
    split_ifs at h
    obtain ⟨host, hhost, rfl⟩ := Option.map_eq_some_iff.mp h
    exact ⟨_, hhost⟩
  front_text {raw v} h _ _ := by
    split_ifs at h
    obtain ⟨host, -, rfl⟩ := Option.map_eq_some_iff.mp h
    have htext : URL.text ⟨scheme, [], host, [], []⟩ =
        scheme ++ ascii [':', '/', '/'] ++ host := by simp [URL.text]
    rw [htext]
    exact if_pos rfl
  host_self {authority host} h hnone := by
    obtain ⟨-, hhash⟩ := Option.filter_eq_some_iff.mp h
    exact Option.filter_eq_some_iff.mpr ⟨unescape_eq_self_iff.mpr hnone, hhash⟩
  host_length {authority host} h :=
    (length_unescape (Option.filter_eq_some_iff.mp h).1).2

/-- `moqt://h` with the fragment `a:` and a value. -/
def loneURI (value : List Char) : URI :=
  ⟨ascii ['h'], ascii ['h'], defaultPort, [], [], some ⟨ascii ['a'], ascii value⟩⟩

theorem parse_string_iff_plain : parse lone (loneURI ['b']).string = .ok (loneURI ['b']) := by
  have hparse : parse lone ((loneURI []).string ++ ascii ['%', '6', '2']) =
      .ok (loneURI ['b']) := rfl
  exact (parse_string_iff hparse).mpr (by decide)

/-- `moqt://h#a:%2541` has the value `%41`, which is written as it is and then read as `A`. The
    authority of `moqt://[fe80::1%25en0]` is kept as `[fe80::1%en0]`, which is then rejected. -/
theorem parse_string_decodes_again :
    (parse lone ((loneURI []).string ++ ascii ['%', '2', '5', '4', '1']) =
        .ok (loneURI ['%', '4', '1']) ∧
      parse lone (loneURI ['%', '4', '1']).string = .ok (loneURI ['A']) ∧
      loneURI ['A'] ≠ loneURI ['%', '4', '1']) ∧
    ∃ u, parse lone (scheme ++ ascii [':', '/', '/', '[', 'f', 'e', '8', '0', ':', ':', '1',
        '%', '2', '5', 'e', 'n', '0', ']']) = .ok u ∧ parse lone u.string = .error .url :=
  ⟨⟨rfl, rfl, by decide⟩, _, rfl, rfl⟩

end MoqGo.Uri
