import NunchukWallet.Descriptor.Generate

/-!
# Descriptors of a signer set: the parser

`ParseDescriptors` (dto/sandboxgroup.cpp) reads a descriptor back: the external descriptor up
to the first line break, the first prefix of `PREFIX_MATCHER` it begins with, the text from the
end of that prefix up to the first `)`, and the signers in it, each read by `SIGNER_REGEX`. A
throw is caught and answers `false`.

* `signerRegex`, `parseSignerString`   `std::regex_match` of
                              `\[([0-9a-fA-F]{8})(.+)\](.+?)(/.*\*)?\n?`, with the groups
                              the backtracking matcher finds first;
* `prefixMatcher`, `signerInfo`, `splitAny`, `stoi`   the table of prefixes and the text
                              operations of the parser;
* `DescriptorOut`, `ParseM`, `parseBody`, `parseDescriptors`   the parser, writing its outputs
                              as it goes;
* `lazyGroup_key`, `greedyGroup_key`, `signerRegex_key`   the groups `SIGNER_REGEX` finds in a key
                              `[fingerprint/path]xpub/0/*` of the generator;
* `prefixMatcher_incomparable`, `find?_prefixMatcher`   no prefix of the table begins another,
                              so the one a descriptor begins with is the one matched;
* `single_sig_read_back`      a single-signature descriptor other than taproot is read back,
                              with its signer;
* `taproot_single_sig_not_parsed`   the single-signature taproot descriptor
                              `GetDescriptorForSigners` writes is not read back: the prefix
                              `tr([` takes the `[` of the key with it.
-/

namespace Nunchuk

/-! ## `SIGNER_REGEX` -/

/-- the characters `.` matches: all but the line terminators -/
def isDot (c : Char) : Bool := c != '\n' && c != '\r'

/-- `[0-9a-fA-F]` -/
def isHexChar (c : Char) : Bool :=
  c.isDigit || (decide ('a' ≤ c) && decide (c ≤ 'f')) || (decide ('A' ≤ c) && decide (c ≤ 'F'))

theorem ne_of_isDot {c : Char} (h : isDot c = true) : c ≠ '\n' := by
  rintro rfl
  exact absurd h (by decide)

/-- a hex digit is matched by `.` and is neither `]` nor `)` -/
theorem isHexChar_key {c : Char} (h : isHexChar c = true) :
    isDot c = true ∧ c ≠ ']' ∧ c ≠ ')' := by
  have hne : ∀ d : Char, isHexChar d = false → c ≠ d := fun d hd hcd => by
    rw [hcd, hd] at h
    cases h
  exact ⟨by simp [isDot, hne '\n' (by decide), hne '\r' (by decide)], hne ']' (by decide),
    hne ')' (by decide)⟩

/-- the characters of a formalized path are matched by `.` and are neither `]` nor `)` when
those of the path are -/
theorem formalizePath_keyChars {path : List Char}
    (h : ∀ c ∈ path, isDot c = true ∧ c ≠ ']' ∧ c ≠ ')') :
    ∀ c ∈ formalizePath path, isDot c = true ∧ c ≠ ']' ∧ c ≠ ')' := fun c hc => by
  rcases mem_formalizePath hc with rfl | rfl | hc
  exacts [by decide, by decide, h c hc]

/-- `(/.*\*)?\n?` matches all of the list -/
def matchesTail : List Char → Bool
  | [] => true
  | ['\n'] => true
  | '/' :: w =>
    match w.reverse with
    | '*' :: x => x.all isDot
    | '\n' :: '*' :: x => x.all isDot
    | _ => false
  | _ => false

/-- `(.+?)(/.*\*)?\n?` on all of the list: the shortest group 3, after `acc` -/
def lazyGroup (acc : List Char) : List Char → Option (List Char)
  | [] => none
  | c :: cs =>
    if isDot c then
      if matchesTail cs then some (acc ++ [c]) else lazyGroup (acc ++ [c]) cs
    else none

/-- `(.+)\](.+?)(/.*\*)?\n?` on all of `t`: the longest group 2 after which the rest matches,
with the group 3 of that match -/
def greedyGroup (t : List Char) : Option (List Char × List Char) :=
  ((List.range t.length).reverse.filterMap fun L =>
    if 0 < L ∧ (t.take L).all isDot = true ∧ t[L]? = some ']' then
      (lazyGroup [] (t.drop (L + 1))).map fun g3 => (t.take L, g3)
    else none).head?

/-- `std::regex_match(s, sm, SIGNER_REGEX)`: the groups 1 to 3 of the match -/
def signerRegex : List Char → Option (List Char × List Char × List Char)
  | '[' :: rest =>
    if (rest.take 8).length = 8 ∧ (rest.take 8).all isHexChar = true then
      (greedyGroup (rest.drop 8)).map fun g => (rest.take 8, g.1, g.2)
    else none
  | _ => none

/-- `ParseSignerString(signer_str)`: the fingerprint, lower-cased, the path after `m` (read by
the `SingleSigner` constructor through `GetDerivationPathView`), and an xpub when the key begins
with `tpub` or `xpub`, else a public key -/
def parseSignerString (lib : KeyLib) (s : List Char) : Except DescriptorError SingleSigner :=
  match signerRegex s with
  | some (g1, g2, g3) => do
    let xfp := String.mk (g1.map Char.toLower)
    let path ← getDerivationPathView lib ('m' :: g2)
    if "tpub".data.isPrefixOf g3 || "xpub".data.isPrefixOf g3 then
      pure ⟨String.mk g1, String.mk g3, "", String.mk path, xfp⟩
    else pure ⟨String.mk g1, "", String.mk g3, String.mk path, xfp⟩
  | none => .error (.invalidParameter
      "Could not parse descriptor. Note that key origin is required for XPUB")

theorem signerRegex_of_head {c : Char} (hc : c ≠ '[') (t : List Char) :
    signerRegex (c :: t) = none := by
  unfold signerRegex
  split
  · next h => exact absurd (List.cons.inj h).1 hc
  · rfl

theorem matchesTail_cons_of_ne {c : Char} (h1 : c ≠ '/') (h2 : c ≠ '\n') (l : List Char) :
    matchesTail (c :: l) = false := by
  unfold matchesTail
  split <;> simp_all

/-- group 3 is the text before a tail that `(/.*\*)?\n?` matches, when no `/` comes earlier -/
theorem lazyGroup_key {kp : List Char} (hkp : matchesTail kp = true) :
    ∀ {cs : List Char} {acc : List Char} {c : Char}, isDot c = true →
      (∀ x ∈ cs, isDot x = true ∧ x ≠ '/') →
        lazyGroup acc (c :: cs ++ kp) = some (acc ++ c :: cs)
  | [], acc, c, hc, _ => by simp [lazyGroup, hc, hkp]
  | d :: ds, acc, c, hc, hds => by
    have hd := hds d (List.mem_cons_self _ _)
    rw [List.cons_append, lazyGroup, if_pos hc, List.cons_append,
      matchesTail_cons_of_ne hd.2 (ne_of_isDot hd.1), if_neg (by simp), ← List.cons_append,
      lazyGroup_key hkp hd.1 fun x hx => hds x (List.mem_cons_of_mem _ hx)]
    simp

theorem head?_filterMap_of_unique {α β : Type} {f : α → Option β} {a : α} {b : β}
    (hb : f a = some b) (hu : ∀ x, x ≠ a → f x = none) :
    ∀ {l : List α}, a ∈ l → (l.filterMap f).head? = some b
  | x :: xs, h => by
    by_cases hx : x = a
    · subst hx; simp [hb]
    · rw [List.filterMap_cons, hu x hx]
      exact head?_filterMap_of_unique hb hu ((List.mem_cons.mp h).resolve_left (Ne.symm hx))

/-- the bracket of `fp ++ ']' :: r`, with none in `fp` or `r`, ends group 2 -/
theorem greedyGroup_key {fp r g3 : List Char} (hfp : fp ≠ []) (hdot : fp.all isDot = true)
    (hb : ']' ∉ fp) (hr : ']' ∉ r) (hg : lazyGroup [] r = some g3) :
    greedyGroup (fp ++ ']' :: r) = some (fp, g3) := by
  unfold greedyGroup
  refine head?_filterMap_of_unique ?_ (fun x hx => if_neg ?_) (List.mem_reverse.mpr
    (List.mem_range.mpr (by simp : fp.length < (fp ++ ']' :: r).length)))
  · rw [if_pos ⟨List.length_pos.mpr hfp, by rwa [List.take_left],
      by rw [List.getElem?_append_right (Nat.le_refl _), Nat.sub_self, List.getElem?_cons_zero]⟩]
    simp [List.drop_left', hg]
  · rintro ⟨-, -, hx'⟩
    rcases Nat.lt_or_gt_of_ne hx with h | h
    · rw [List.getElem?_append_left h] at hx'
      exact hb (List.getElem?_mem hx')
    · obtain ⟨k, rfl⟩ := Nat.exists_eq_add_of_lt h
      rw [List.getElem?_append_right (by omega),
        show fp.length + k + 1 - fp.length = k + 1 by omega, List.getElem?_cons_succ] at hx'
      exact hr (List.getElem?_mem hx')

theorem signerRegex_key {xfp : List Char} (h8 : xfp.length = 8)
    (hhex : xfp.all isHexChar = true) (t : List Char) :
    signerRegex ('[' :: (xfp ++ t)) = (greedyGroup t).map fun g => (xfp, g.1, g.2) := by
  rw [signerRegex.eq_1, List.take_left' h8, List.drop_left' h8, if_pos ⟨h8, hhex⟩]

/-- a signer text matched with an xpub as group 3 reads as that xpub, under the path
`GetDerivationPathView` writes for `m` and group 2 -/
theorem parseSignerString_xpub {lib : KeyLib} {s g1 g2 g3 p : List Char}
    (hs : signerRegex s = some (g1, g2, g3))
    (hview : getDerivationPathView lib ('m' :: g2) = .ok p)
    (hx : "xpub".data <+: g3 ∨ "tpub".data <+: g3) :
    parseSignerString lib s =
      .ok ⟨String.mk g1, String.mk g3, "", String.mk p, String.mk (g1.map Char.toLower)⟩ := by
  have hpre : ("tpub".data.isPrefixOf g3 || "xpub".data.isPrefixOf g3) = true := by
    simp only [Bool.or_eq_true, List.isPrefixOf_iff_prefix]
    exact hx.symm
  simp only [parseSignerString, hs, hview, hpre, if_true]
  rfl

/-- the groups `SIGNER_REGEX` finds in a key `[fingerprint/path]xpub/0/*` of the generator,
when the path and the xpub hold no `]` and the xpub no `/` -/
theorem signerRegex_signerKey {xfp path xpub kp : List Char}
    (hx : xfp.length = 8 ∧ xfp.all isHexChar = true)
    (hpath : 2 ≤ path.length ∧ ∀ c ∈ path, isDot c = true ∧ c ≠ ']' ∧ c ≠ ')')
    (hxpub : xpub ≠ [] ∧ ∀ c ∈ xpub, isDot c = true ∧ c ≠ ']' ∧ c ≠ ')' ∧ c ≠ '/')
    (hkt : matchesTail kp = true) (hkc : ∀ c ∈ kp, c ≠ ']' ∧ c ≠ ')' ∧ c ≠ '\n') :
    signerRegex ('[' :: xfp ++ formalizePath path ++ ']' :: xpub ++ kp) =
      some (xfp, formalizePath path, xpub) := by
  have hfc := formalizePath_keyChars hpath.2
  have hlazy : lazyGroup [] (xpub ++ kp) = some xpub := by
    obtain ⟨c0, cs0, rfl⟩ := List.exists_cons_of_ne_nil hxpub.1
    exact lazyGroup_key hkt (hxpub.2 c0 (List.mem_cons_self _ _)).1
      fun x hx => ⟨(hxpub.2 x (List.mem_cons_of_mem _ hx)).1,
        (hxpub.2 x (List.mem_cons_of_mem _ hx)).2.2.2⟩
  simp only [List.cons_append, List.append_assoc]
  rw [signerRegex_key hx.1 hx.2, greedyGroup_key (formalizePath_ne_nil hpath.1)
    (List.all_eq_true.mpr fun c hc => (hfc c hc).1) (fun h => (hfc _ h).2.1 rfl) ?_ hlazy]
  · rfl
  · simp only [List.mem_append, not_or]
    exact ⟨fun h => (hxpub.2 _ h).2.1 rfl, fun h => (hkc _ h).1 rfl⟩

/-- such a key holds no `)` and no line break -/
theorem signerKey_chars {xfp path xpub kp : List Char} (hx : xfp.all isHexChar = true)
    (hpath : ∀ c ∈ path, isDot c = true ∧ c ≠ ']' ∧ c ≠ ')')
    (hxpub : ∀ c ∈ xpub, isDot c = true ∧ c ≠ ']' ∧ c ≠ ')' ∧ c ≠ '/')
    (hkc : ∀ c ∈ kp, c ≠ ']' ∧ c ≠ ')' ∧ c ≠ '\n') :
    ∀ c ∈ '[' :: xfp ++ formalizePath path ++ ']' :: xpub ++ kp, c ≠ ')' ∧ c ≠ '\n' := by
  have hxc c (hc : c ∈ xfp) := isHexChar_key (List.all_eq_true.mp hx c hc)
  have hfc := formalizePath_keyChars hpath
  simp only [List.cons_append, List.forall_mem_cons, List.forall_mem_append]
  exact ⟨by decide, ⟨⟨fun c hc => ⟨(hxc c hc).2.2, ne_of_isDot (hxc c hc).1⟩,
    fun c hc => ⟨(hfc c hc).2.2, ne_of_isDot (hfc c hc).1⟩⟩, by decide,
    fun c hc => ⟨(hxpub c hc).2.2.1, ne_of_isDot (hxpub c hc).1⟩⟩,
    fun c hc => ⟨(hkc c hc).2.1, (hkc c hc).2.2⟩⟩

/-! ## the text operations -/

/-- `PREFIX_MATCHER`, in the key order of its `std::map` -/
def prefixMatcher : List (String × AddressType × WalletType) :=
  [("pkh(", .legacy, .singleSig),
   ("sh(sortedmulti(", .legacy, .multiSig),
   ("sh(wpkh(", .nestedSegwit, .singleSig),
   ("sh(wsh(sortedmulti(", .nestedSegwit, .multiSig),
   ("tr(50929b", .taproot, .multiSig),
   ("tr([", .taproot, .singleSig),
   ("tr(musig(", .taproot, .multiSig),
   ("wpkh(", .nativeSegwit, .singleSig),
   ("wsh(sortedmulti(", .nativeSegwit, .multiSig)]

/-- the external descriptor: `descs` up to its first line break -/
def externalPart (descs : List Char) : List Char := descs.takeWhile (· != '\n')

/-- `external.substr(k, external.find(")", 0) - k)`: from position `k` up to the first `)`; to
the end when there is none, or when it comes before `k` (the length then wraps around) -/
def signerInfo (external : List Char) (k : Nat) : List Char :=
  match external.findIdx? (· == ')') with
  | some i => if k ≤ i then (external.drop k).take (i - k) else external.drop k
  | none => external.drop k

/-- `boost::split(parts, s, boost::is_any_of(seps), boost::token_compress_off)`: the pieces
between the separators, the empty ones included -/
def splitAny (seps : List Char) : List Char → List (List Char)
  | [] => [[]]
  | c :: cs =>
    let r := splitAny seps cs
    if c ∈ seps then [] :: r else (c :: r.headD []) :: r.tail

/-- `std::stoi(s)`: blanks skipped, a sign, then the decimal digits; it throws when there is
no digit or the value is outside `int` -/
def stoi (s : List Char) : Except DescriptorError Int :=
  let s := s.dropWhile fun c => c == ' ' || c == '\t' || c == '\n' || c == '\x0b' ||
    c == '\x0c' || c == '\r'
  let (neg, s) : Bool × List Char := match s with
    | '-' :: r => (true, r)
    | '+' :: r => (false, r)
    | r => (false, r)
  let ds := s.takeWhile Char.isDigit
  let v : Int := ds.foldl (fun acc c => 10 * acc + (c.toNat - '0'.toNat : Nat)) 0
  let z := if neg then -v else v
  if ds.isEmpty || decide (z < -2147483648) || decide (2147483647 < z) then .error .stoi
  else .ok z

/-! ## the parser -/

/-- the outputs `a`, `w`, `m`, `n` and `signers` of `ParseDescriptors` -/
structure DescriptorOut where
  a : AddressType
  w : WalletType
  m : Int
  n : Int
  signers : List SingleSigner
deriving DecidableEq, Repr

/-- a step of `ParseDescriptors`: what it writes to its outputs stays written when a later
step throws -/
abbrev ParseM := ExceptT DescriptorError (StateM DescriptorOut)

/-- a call that may throw, inside the parser -/
def liftParse {α : Type} (x : Except DescriptorError α) : ParseM α := ExceptT.mk (pure x)

/-- the loop of the taproot branch over the pieces of the descriptor between `,{}()`: each
piece of at least 20 bytes not seen before is a signer -/
def parseTaprootSigners (lib : KeyLib) : List (List Char) → List (List Char) → ParseM Unit
  | [], _ => pure ()
  | p :: ps, seen =>
    if (String.mk p).utf8ByteSize < 20 ∨ p ∈ seen then parseTaprootSigners lib ps seen
    else do
      let s ← liftParse (parseSignerString lib p)
      modify fun o => { o with signers := o.signers ++ [s] }
      parseTaprootSigners lib ps (seen ++ [p])

/-- the loop of the multisig branch over the keys: a signer without an xpub makes the wallet
ESCROW -/
def parseMultiSigners (lib : KeyLib) : List (List Char) → ParseM Unit
  | [] => pure ()
  | p :: ps => do
    let s ← liftParse (parseSignerString lib p)
    modify fun o =>
      { o with signers := o.signers ++ [s], w := if s.xpub.isEmpty then .escrow else o.w }
    parseMultiSigners lib ps

/-- the loop of `ParseDescriptors` over `PREFIX_MATCHER` on the external descriptor: the first
prefix it begins with sets `a` and `w`, and its branch reads `m`, `n` and the signers; `false`
when no prefix matches -/
def parseBody (lib : KeyLib) (external : List Char) : ParseM Bool :=
  match prefixMatcher.find? fun p => p.1.data.isPrefixOf external with
  | none => pure false
  | some (pre, a, w) => do
    modify fun o => { o with a := a, w := w }
    let info := signerInfo external pre.length
    if w = .singleSig then
      modify fun o => { o with m := 1, n := 1 }
      let s ← liftParse (parseSignerString lib info)
      modify fun o => { o with signers := o.signers ++ [s] }
    else if a = .taproot then
      modify fun o => { o with m := (splitAny [','] info).length }
      parseTaprootSigners lib (splitAny [',', '{', '}', '(', ')'] external) []
      modify fun o => { o with n := o.signers.length }
    else
      let parts := splitAny [','] info
      let m ← liftParse (stoi (parts.headD []))
      modify fun o => { o with m := m, n := (parts.length : Int) - 1 }
      parseMultiSigners lib (parts.drop 1)
    pure true

/-- `ParseDescriptors(descs, a, w, m, n, signers)` from the outputs `out`: its answer and the
outputs after it; a throw is caught and answers `false`, the outputs keeping what was written -/
def parseDescriptors (lib : KeyLib) (descs : String) (out : DescriptorOut) :
    Bool × DescriptorOut :=
  match (parseBody lib (externalPart descs.data)).run out with
  | (.ok b, out') => (b, out')
  | (.error _, out') => (false, out')

/-! ## the prefix a descriptor is read with -/

/-- no prefix of the table begins another -/
theorem prefixMatcher_incomparable :
    prefixMatcher.Pairwise fun p q => ¬ p.1.data <+: q.1.data ∧ ¬ q.1.data <+: p.1.data := by
  decide

theorem find?_of_pairwise {α : Type} {P : α → Bool} :
    ∀ {L : List α}, L.Pairwise (fun a b => ¬ (P a = true ∧ P b = true)) → ∀ {e : α}, e ∈ L →
      P e = true → L.find? P = some e
  | x :: xs, hL, e, he, hp => by
    rw [List.pairwise_cons] at hL
    rw [List.find?_cons]
    cases hx : P x
    · have hne : e ≠ x := fun h => by rw [h, hx] at hp; cases hp
      exact find?_of_pairwise hL.2 ((List.mem_cons.mp he).resolve_left hne) hp
    · rcases List.mem_cons.mp he with rfl | he
      · rfl
      · exact absurd ⟨hx, hp⟩ (hL.1 e he)

/-- the entry of the table a descriptor begins with is the one the loop matches -/
theorem find?_prefixMatcher {e : String × AddressType × WalletType} (he : e ∈ prefixMatcher)
    {l : List Char} (hl : e.1.data <+: l) :
    prefixMatcher.find? (fun p => p.1.data.isPrefixOf l) = some e := by
  refine find?_of_pairwise (prefixMatcher_incomparable.imp fun {p q} h ⟨hp, hq⟩ => ?_) he
    (List.isPrefixOf_iff_prefix.mpr hl)
  rcases List.prefix_or_prefix_of_prefix (List.isPrefixOf_iff_prefix.mp hp)
    (List.isPrefixOf_iff_prefix.mp hq) with h' | h'
  · exact h.1 h'
  · exact h.2 h'

theorem findIdx?_paren_eq_none {l : List Char} (hl : ')' ∉ l) :
    l.findIdx? (· == ')') = none :=
  List.findIdx?_eq_none_iff.mpr fun x hx => by simpa using ne_of_mem_of_not_mem hx hl

/-- the signer text after a prefix without `)` begins with the character after the prefix,
when that is not `)` -/
theorem signerInfo_append {pre r : List Char} {c : Char} (hpre : ∀ x ∈ pre, x ≠ ')')
    (hc : c ≠ ')') : ∃ t, signerInfo (pre ++ c :: r) pre.length = c :: t := by
  unfold signerInfo
  rw [List.findIdx?_append, findIdx?_paren_eq_none fun h => hpre _ h rfl, Option.none_or,
    List.drop_left]
  cases hr : (c :: r).findIdx? (· == ')') with
  | none => exact ⟨r, rfl⟩
  | some i =>
    rw [List.findIdx?_cons, if_neg (by simpa using hc), List.findIdx?_succ] at hr
    obtain ⟨j, -, rfl⟩ := Option.map_eq_some'.mp hr
    simp only [Option.map_some', Nat.le_add_left, if_true, Nat.add_sub_cancel]
    exact ⟨r.take j, rfl⟩

/-- after a prefix, the signer text is all up to the first `)` -/
theorem signerInfo_key {pre key : List Char} (hpre : ')' ∉ pre) (hkey : ')' ∉ key)
    (r : List Char) : signerInfo (pre ++ key ++ ')' :: r) pre.length = key := by
  have hl : ')' ∉ pre ++ key := by simp [hpre, hkey]
  have hi : (pre ++ key ++ ')' :: r).findIdx? (· == ')') = some (pre ++ key).length := by
    rw [List.findIdx?_append, findIdx?_paren_eq_none hl, Option.none_or, List.findIdx?_cons]
    simp
  unfold signerInfo
  rw [hi]
  dsimp only
  rw [if_pos (by simp), List.append_assoc, List.drop_left, List.length_append,
    Nat.add_sub_cancel_left, List.take_left]

/-- the external descriptor runs past a `)` with no line break before it -/
theorem externalPart_append_paren {l : List Char} (hl : '\n' ∉ l) (r : List Char) :
    externalPart (l ++ ')' :: r) = l ++ ')' :: externalPart r := by
  rw [externalPart, List.takeWhile_append_of_pos fun c hc => by
    simpa using ne_of_mem_of_not_mem hc hl, List.takeWhile_cons_of_pos (by decide)]
  rfl

/-- the single-signature templates other than taproot begin with their prefix of the table,
which holds no `)`, and put the first `)` right after the key -/
theorem singleSigDescriptor_prefix {a : AddressType} (ha : a ≠ .taproot) :
    ∃ pre suf, (pre, a, WalletType.singleSig) ∈ prefixMatcher ∧ ')' ∉ pre.data ∧
      '\n' ∉ pre.data ∧ ∀ key, singleSigDescriptor a key = pre.data ++ key ++ ')' :: suf := by
  cases a
  · exact ⟨"pkh(", [], by decide, by decide, by decide,
      fun key => by simp [singleSigDescriptor]⟩
  · exact ⟨"sh(wpkh(", [')'], by decide, by decide, by decide,
      fun key => by simp [singleSigDescriptor]⟩
  · exact ⟨"wpkh(", [], by decide, by decide, by decide,
      fun key => by simp [singleSigDescriptor]⟩
  · exact absurd rfl ha

/-- the key paths that end in a wildcard: `/*`, `/1/*`, `/0/*` -/
theorem getKeyPath_wildcard {keyPath : DescriptorPath}
    (hk : keyPath = .any ∨ keyPath = .internalAll ∨ keyPath = .externalAll) (index : Int) :
    matchesTail (getKeyPath keyPath index) = true ∧
      ∀ c ∈ getKeyPath keyPath index, c ≠ ']' ∧ c ≠ ')' ∧ c ≠ '\n' := by
  rcases hk with rfl | rfl | rfl <;> dsimp only [getKeyPath] <;> decide

/-! ## the single-signature descriptors -/

/-- a single-signature prefix whose signer text does not parse: `ParseDescriptors` answers
`false` -/
theorem parseDescriptors_single_sig_throws {lib : KeyLib} {descs : String} {out : DescriptorOut}
    {pre : String} {a : AddressType} {e : DescriptorError}
    (hf : prefixMatcher.find? (fun p => p.1.data.isPrefixOf (externalPart descs.data)) =
      some (pre, a, .singleSig))
    (he : parseSignerString lib (signerInfo (externalPart descs.data) pre.length) = .error e) :
    (parseDescriptors lib descs out).1 = false := by
  unfold parseDescriptors parseBody
  rw [hf]
  simp only [if_true, he, liftParse]
  rfl

/-- a single-signature prefix whose signer text parses: `ParseDescriptors` answers `true` and
writes the type, `1`-of-`1` and the signer -/
theorem parseDescriptors_single_sig_ok {lib : KeyLib} {descs : String} {out : DescriptorOut}
    {pre : String} {a : AddressType} {s : SingleSigner}
    (hf : prefixMatcher.find? (fun p => p.1.data.isPrefixOf (externalPart descs.data)) =
      some (pre, a, .singleSig))
    (hs : parseSignerString lib (signerInfo (externalPart descs.data) pre.length) = .ok s) :
    parseDescriptors lib descs out = (true, ⟨a, .singleSig, 1, 1, out.signers ++ [s]⟩) := by
  unfold parseDescriptors parseBody
  rw [hf]
  simp only [if_true, hs, liftParse]
  rfl

/-- a descriptor beginning with `tr([` and a hex digit is not read back -/
theorem parseDescriptors_tr_bracket (lib : KeyLib) (out : DescriptorOut) {c : Char}
    (hc : isHexChar c = true) (r : List Char) :
    (parseDescriptors lib (String.mk ('t' :: 'r' :: '(' :: '[' :: c :: r)) out).1 = false := by
  have hn : c ≠ '\n' := by rintro rfl; exact absurd hc (by decide)
  have hp : c ≠ ')' := by rintro rfl; exact absurd hc (by decide)
  have hb : c ≠ '[' := by rintro rfl; exact absurd hc (by decide)
  have hext : externalPart ('t' :: 'r' :: '(' :: '[' :: c :: r) =
      "tr([".data ++ c :: r.takeWhile (· != '\n') := by
    simp only [externalPart, List.takeWhile_cons, bne_iff_ne, ne_eq, hn, not_false_eq_true,
      decide_True, if_true]
    rfl
  obtain ⟨t, ht⟩ : ∃ t, signerInfo ("tr([".data ++ c :: r.takeWhile (· != '\n')) "tr([".length =
      c :: t := signerInfo_append (by decide) hp
  refine @parseDescriptors_single_sig_throws lib _ out "tr([" .taproot
    (.invalidParameter "Could not parse descriptor. Note that key origin is required for XPUB")
    (find?_prefixMatcher (by decide) (hext ▸ List.prefix_append _ _)) ?_
  rw [hext, ht]
  unfold parseSignerString
  rw [signerRegex_of_head hb]

/-- For one signer whose fingerprint is 8 hex digits, with any path, xpub, checksum and
outputs, `ParseDescriptors` does not read back the single-signature taproot descriptor
`GetDescriptorForSigners` writes: the prefix `tr([` takes the `[` of the key with it, so the
signer text begins with the fingerprint and `SIGNER_REGEX` does not match. -/
theorem taproot_single_sig_not_parsed (lib : KeyLib) (s : SingleSigner) (index : Int)
    (sorted : Bool) (out : DescriptorOut)
    (hx : s.masterFingerprint.length = 8 ∧ s.masterFingerprint.data.all isHexChar = true) :
    ∃ d, getDescriptorForSigners lib [s] 1 .externalAll .taproot .singleSig index sorted =
      .ok (some d) ∧ (parseDescriptors lib d out).1 = false := by
  obtain ⟨c, xs, hc⟩ : ∃ c xs, s.masterFingerprint.data = c :: xs := by
    cases h : s.masterFingerprint.data with
    | nil => exact absurd hx.1 (by simp [String.length, h])
    | cons c xs => exact ⟨c, xs, rfl⟩
  have hch : isHexChar c = true := List.all_eq_true.mp hx.2 c (hc ▸ List.mem_cons_self _ _)
  refine ⟨_, getDescriptorForSigners_singleSig lib s 1 (by decide) .taproot index sorted, ?_⟩
  rw [hc]
  exact parseDescriptors_tr_bracket lib out hch _

/-- a signer of fingerprint `73c5da0a` at `m/86h/0h/0h` -/
def taprootSigner : SingleSigner := ⟨"", "xpub6", "", "m/86h/0h/0h", "73c5da0a"⟩

/-- a library whose checksum is eight zeros and whose keypaths read back unchanged -/
def zeroChecksumLib : KeyLib := ⟨fun _ => "00000000".data, fun _ => [], fun _ _ _ => none, some⟩

theorem taproot_single_sig_not_parsed_example :
    (taprootSigner.masterFingerprint.length = 8 ∧
      taprootSigner.masterFingerprint.data.all isHexChar = true) ∧
    ∃ d, getDescriptorForSigners zeroChecksumLib [taprootSigner] 1 .externalAll .taproot .singleSig
        (-1) true = .ok (some d) ∧
      (parseDescriptors zeroChecksumLib d ⟨.legacy, .multiSig, 0, 0, []⟩).1 = false :=
  ⟨by decide, taproot_single_sig_not_parsed _ _ _ _ _ (by decide)⟩

/-- A single-signature descriptor other than taproot, on a key path ending in a wildcard, is
read back: for one signer whose fingerprint is 8 hex digits, whose path (of two characters or
more) and xpub (beginning with `xpub` or `tpub`) hold no `]`, `)` or line terminator, and whose
xpub holds no `/`, `ParseDescriptors` answers `true` with the address type, `1`-of-`1`, and the
signer appended: its fingerprint, its xpub, the path `GetDerivationPathView` gives for the one
`GetDescriptorForSigners` wrote, and the fingerprint lower-cased. -/
theorem single_sig_read_back (lib : KeyLib) (s : SingleSigner) (m : Int)
    {keyPath : DescriptorPath}
    (hk : keyPath = .any ∨ keyPath = .internalAll ∨ keyPath = .externalAll)
    {a : AddressType} (ha : a ≠ .taproot) (index : Int) (sorted : Bool) (out : DescriptorOut)
    {p : List Char}
    (hx : s.masterFingerprint.length = 8 ∧ s.masterFingerprint.data.all isHexChar = true)
    (hpath : 2 ≤ s.derivationPath.length ∧
      ∀ c ∈ s.derivationPath.data, isDot c = true ∧ c ≠ ']' ∧ c ≠ ')')
    (hview : getDerivationPathView lib ('m' :: formalizePath s.derivationPath.data) = .ok p)
    (hxpub : ("xpub".data <+: s.xpub.data ∨ "tpub".data <+: s.xpub.data) ∧
      ∀ c ∈ s.xpub.data, isDot c = true ∧ c ≠ ']' ∧ c ≠ ')' ∧ c ≠ '/') :
    ∃ d, getDescriptorForSigners lib [s] m keyPath a .singleSig index sorted = .ok (some d) ∧
      parseDescriptors lib d out = (true, ⟨a, .singleSig, 1, 1, out.signers ++
        [⟨s.masterFingerprint, s.xpub, "", String.mk p,
          String.mk (s.masterFingerprint.data.map Char.toLower)⟩]⟩) := by
  obtain ⟨pre, suf, hmem, hpre, hpren, hdesc⟩ := singleSigDescriptor_prefix ha
  obtain ⟨hkt, hkc⟩ := getKeyPath_wildcard hk index
  have hk' : keyPath ≠ .externalPubkey ∧ keyPath ≠ .internalPubkey ∧
      keyPath ≠ .template := by
    rcases hk with rfl | rfl | rfl <;> decide
  refine ⟨_, getDescriptorForSigners_singleSig lib s m hk' a index sorted, ?_⟩
  have hne : s.xpub.data ≠ [] := by
    rintro h
    rcases hxpub.1 with ⟨t, ht⟩ | ⟨t, ht⟩ <;> rw [h] at ht <;> cases ht
  -- the key the generator writes, as `ParseSignerString` reads it
  have hsig := parseSignerString_xpub
    (signerRegex_signerKey hx hpath ⟨hne, hxpub.2⟩ hkt hkc) hview hxpub.1
  have hkey := signerKey_chars hx.2 hpath.2 hxpub.2 hkc
  generalize '[' :: s.masterFingerprint.data ++ formalizePath s.derivationPath.data ++
      ']' :: s.xpub.data ++ getKeyPath keyPath index = key at hsig hkey
  -- the descriptor: the prefix of the table, the key, `)`, then the rest
  rw [hdesc]
  generalize lib.checksum _ = cs
  have hl : '\n' ∉ pre.data ++ key := by
    simp only [List.mem_append, not_or]
    exact ⟨hpren, fun h => (hkey _ h).2 rfl⟩
  have hr : externalPart (pre.data ++ key ++ ')' :: suf ++ '#' :: cs) =
      pre.data ++ key ++ ')' :: externalPart (suf ++ '#' :: cs) := by
    rw [List.append_assoc, List.cons_append, externalPart_append_paren hl]
  refine @parseDescriptors_single_sig_ok lib _ out pre a _ (find?_prefixMatcher hmem ?_) ?_
  · dsimp only
    rw [hr, List.append_assoc]
    exact List.prefix_append _ _
  · dsimp only
    have hinfo : signerInfo (pre.data ++ key ++ ')' :: externalPart (suf ++ '#' :: cs))
        pre.length = key := signerInfo_key hpre (fun h => (hkey _ h).1 rfl) _
    rw [hr, hinfo]
    exact hsig

theorem single_sig_read_back_native :
    (DescriptorPath.externalAll = .any ∨ DescriptorPath.externalAll = .internalAll ∨
      DescriptorPath.externalAll = .externalAll) ∧ AddressType.nativeSegwit ≠ .taproot ∧
    (taprootSigner.masterFingerprint.length = 8 ∧
      taprootSigner.masterFingerprint.data.all isHexChar = true) ∧
    (2 ≤ taprootSigner.derivationPath.length ∧
      ∀ c ∈ taprootSigner.derivationPath.data, isDot c = true ∧ c ≠ ']' ∧ c ≠ ')') ∧
    getDerivationPathView zeroChecksumLib ('m' :: formalizePath taprootSigner.derivationPath.data) =
      .ok "m/86h/0h/0h".data ∧
    (("xpub".data <+: taprootSigner.xpub.data ∨ "tpub".data <+: taprootSigner.xpub.data) ∧
      ∀ c ∈ taprootSigner.xpub.data,
        isDot c = true ∧ c ≠ ']' ∧ c ≠ ')' ∧ c ≠ '/') ∧
    ∃ d, getDescriptorForSigners zeroChecksumLib [taprootSigner] 1 .externalAll .nativeSegwit
        .singleSig (-1) true = .ok (some d) ∧
      parseDescriptors zeroChecksumLib d ⟨.legacy, .multiSig, 0, 0, []⟩ =
        (true, ⟨.nativeSegwit, .singleSig, 1, 1,
          [⟨"73c5da0a", "xpub6", "", "m/86h/0h/0h", "73c5da0a"⟩]⟩) :=
  ⟨by decide, by decide, by decide, by decide, rfl, by decide,
    single_sig_read_back zeroChecksumLib taprootSigner 1 (.inr (.inr rfl)) (by decide) (-1) true
      ⟨.legacy, .multiSig, 0, 0, []⟩ (by decide) (by decide) rfl (by decide)⟩

end Nunchuk
