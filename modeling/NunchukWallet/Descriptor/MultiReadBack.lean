import Mathlib.Data.String.Basic
import NunchukWallet.Descriptor.Parse

/-!
# Multisig descriptors read back

`GetDescriptorForSigners` (dto/sandboxgroup.cpp) writes a segwit or legacy multisig wallet as
`sh(…)`, `wsh(…)` or `sh(wsh(…))` around `sortedmulti(m,key,…)`, or `multi(m,key,…)` when not
sorted. `ParseDescriptors` reads the threshold with `std::stoi` from the first piece of the
signer text split at the commas, takes the count of the other pieces, and reads each piece as a
signer; a signer without an xpub makes the wallet ESCROW.

* `stoi_toString`          `std::stoi` reads back every `int` that `<<` writes;
* `splitAny_commaKeys`     the threshold and the keys come back from the split at the commas
                           when none of them holds one;
* `parseMultiSigners_run`  the loop over the keys appends their signers in order;
* `parseDescriptors_multiDescriptor`   `ParseDescriptors` on a sorted multisig descriptor whose
                           keys parse;
* `sorted_read_back`       the same from the signers, when every key parses and all or none of
                           them have an xpub;
* `multi_sig_read_back`   a sorted multisig descriptor on a key path ending in a wildcard is read
                           back: the address type, MULTI_SIG, the threshold, the count, and one
                           signer per signer, in order;
* `escrow_read_back`       the same for an escrow wallet, whose keys are public keys: the parser
                           finds no xpub and answers ESCROW;
* `unsorted_multi_not_read_back`   a descriptor written unsorted is NEVER read back: no prefix of
                           `PREFIX_MATCHER` begins `multi(`, so the answer is `false` and nothing
                           is written.
-/

namespace Nunchuk

/-! ## the threshold -/

theorem digitChar_val : ∀ d, d < 10 → (Nat.digitChar d).toNat - '0'.toNat = d := by decide

theorem isDigit_digitChar : ∀ d, d < 10 → (Nat.digitChar d).isDigit = true := by decide

/-- the decimal loop of `std::stoi` over the digits `Nat.toDigits` writes before `ds` -/
theorem foldl_toDigitsCore : ∀ (fuel n : Nat) (ds : List Char), n < fuel →
    (Nat.toDigitsCore 10 fuel n ds).foldl
      (fun (acc : Int) c => 10 * acc + ((c.toNat - '0'.toNat : Nat) : Int)) 0 =
    ds.foldl (fun (acc : Int) c => 10 * acc + ((c.toNat - '0'.toNat : Nat) : Int)) n
  | 0, _, _, h => absurd h (Nat.not_lt_zero _)
  | fuel + 1, n, ds, h => by
    have hd := digitChar_val (n % 10) (Nat.mod_lt _ (by decide))
    dsimp only [Nat.toDigitsCore]
    split
    · next h0 =>
      simp only [List.foldl_cons, hd]
      congr 1
      omega
    · next h0 =>
      rw [foldl_toDigitsCore fuel (n / 10) _ (by omega), List.foldl_cons, hd]
      congr 1
      omega

theorem isDigit_of_mem_toDigitsCore : ∀ (fuel n : Nat) (ds : List Char), (∀ c ∈ ds, c.isDigit = true) →
    ∀ c ∈ Nat.toDigitsCore 10 fuel n ds, c.isDigit = true
  | 0, _, _, h => h
  | fuel + 1, n, ds, h => by
    have hd := isDigit_digitChar (n % 10) (Nat.mod_lt _ (by decide))
    dsimp only [Nat.toDigitsCore]
    split
    · exact List.forall_mem_cons.mpr ⟨hd, h⟩
    · exact isDigit_of_mem_toDigitsCore fuel _ _ (List.forall_mem_cons.mpr ⟨hd, h⟩)

theorem toDigitsCore_ne_nil : ∀ (fuel n : Nat) (ds : List Char), 0 < fuel →
    Nat.toDigitsCore 10 fuel n ds ≠ []
  | fuel + 1, n, ds, _ => by
    dsimp only [Nat.toDigitsCore]
    split
    · exact List.cons_ne_nil _ _
    · cases fuel with
      | zero => exact List.cons_ne_nil _ _
      | succ f => exact toDigitsCore_ne_nil (f + 1) _ _ (Nat.succ_pos _)

/-- the digits `Nat.toDigits 10 n` writes: not empty, all decimal digits, of value `n` -/
theorem toDigits_spec (n : Nat) :
    Nat.toDigits 10 n ≠ [] ∧ (∀ c ∈ Nat.toDigits 10 n, c.isDigit = true) ∧
      (Nat.toDigits 10 n).foldl
        (fun (acc : Int) c => 10 * acc + ((c.toNat - '0'.toNat : Nat) : Int)) 0 = n :=
  ⟨toDigitsCore_ne_nil _ n [] (Nat.succ_pos n),
    isDigit_of_mem_toDigitsCore _ n [] (fun _ h => absurd h (List.not_mem_nil _)),
    foldl_toDigitsCore _ n [] (Nat.lt_succ_self n)⟩

/-- a character `std::stoi` skips as a blank, or reads as a sign, is not a digit -/
theorem not_blank_of_isDigit {c : Char} (hc : c.isDigit = true) (cs : List Char) :
    (c :: cs).dropWhile (fun c => c == ' ' || c == '\t' || c == '\n' || c == '\x0b' ||
      c == '\x0c' || c == '\r') = c :: cs ∧ c ≠ '-' ∧ c ≠ '+' := by
  have hne : ∀ d : Char, d.isDigit = false → c ≠ d := fun d hd h => by rw [h, hd] at hc; cases hc
  refine ⟨List.dropWhile_cons_of_neg ?_, hne '-' (by decide), hne '+' (by decide)⟩
  simp [hne ' ' (by decide), hne '\t' (by decide), hne '\n' (by decide), hne '\x0b' (by decide),
    hne '\x0c' (by decide), hne '\r' (by decide)]

/-- `std::stoi` reads back the threshold `GetDescriptorForSigners` writes with `<<`: any `int` -/
theorem stoi_toString {m : Int} (hm : -2147483648 ≤ m ∧ m ≤ 2147483647) :
    stoi (toString m).data = .ok m := by
  cases m with
  | ofNat n =>
    obtain ⟨hne, hd, hv⟩ := toDigits_spec n
    obtain ⟨c, cs, hcs⟩ := List.exists_cons_of_ne_nil hne
    obtain ⟨hws, hm', hp⟩ := not_blank_of_isDigit (hd c (hcs ▸ List.mem_cons_self _ _)) cs
    show stoi (Nat.toDigits 10 n) = _
    rw [stoi, hcs, hws]
    split
    next neg s h =>
      split at h
      · next r heq => exact absurd (List.cons.inj heq).1 hm'
      · next r heq => exact absurd (List.cons.inj heq).1 hp
      · obtain ⟨rfl, rfl⟩ := Prod.mk.inj h
        rw [← hcs, List.takeWhile_eq_self_iff.mpr hd]
        simp only [hv]
        have h1 : ¬ (n : Int) < -2147483648 := by omega
        have h2 : ¬ 2147483647 < (n : Int) := by simp only [Int.ofNat_eq_coe] at hm; omega
        simp [hne, h1, h2]
  | negSucc n =>
    obtain ⟨hne, hd, hv⟩ := toDigits_spec (n + 1)
    have hws : ('-' :: Nat.toDigits 10 (n + 1)).dropWhile (fun c => c == ' ' || c == '\t' ||
        c == '\n' || c == '\x0b' || c == '\x0c' || c == '\r') = '-' :: Nat.toDigits 10 (n + 1) :=
      List.dropWhile_cons_of_neg (by decide)
    show stoi ('-' :: Nat.toDigits 10 (n + 1)) = _
    rw [stoi, hws]
    split
    next neg s h =>
      split at h
      · next r heq =>
        obtain ⟨rfl, rfl⟩ := Prod.mk.inj h
        rw [← (List.cons.inj heq).2, List.takeWhile_eq_self_iff.mpr hd]
        rw [Int.negSucc_eq] at hm ⊢
        simp only [hv]
        simp [hne]
        omega
      · next r heq => exact absurd (List.cons.inj heq).1 (by decide)
      · next h1 _ => exact absurd rfl (h1 _)

/-- the characters of a threshold `<<` writes: a sign and digits, so no `,`, `)` or line
break -/
theorem mem_toString_int {m : Int} {c : Char} (hc : c ∈ (toString m).data) :
    c ≠ ',' ∧ c ≠ ')' ∧ c ≠ '\n' := by
  have hd : ∀ {n : Nat}, c ∈ Nat.toDigits 10 n → c ≠ ',' ∧ c ≠ ')' ∧ c ≠ '\n' := fun h => by
    have := (toDigits_spec _).2.1 c h
    refine ⟨?_, ?_, ?_⟩ <;> rintro rfl <;> exact absurd this (by decide)
  cases m with
  | ofNat n => exact hd hc
  | negSucc n =>
    change c ∈ '-' :: Nat.toDigits 10 (n + 1) at hc
    rcases List.mem_cons.mp hc with rfl | h
    · decide
    · exact hd h

/-! ## the keys -/

section
variable {seps : List Char}

theorem splitAny_of_forall_not_mem : ∀ {x : List Char}, (∀ c ∈ x, c ∉ seps) → splitAny seps x = [x]
  | [], _ => rfl
  | c :: x, h => by
    rw [List.forall_mem_cons] at h
    simp only [splitAny, if_neg h.1, splitAny_of_forall_not_mem h.2, List.headD_cons, List.tail_cons]

theorem splitAny_append_sep {s : Char} (hs : s ∈ seps) (r : List Char) :
    ∀ {x : List Char}, (∀ c ∈ x, c ∉ seps) → splitAny seps (x ++ s :: r) = x :: splitAny seps r
  | [], _ => by simp [splitAny, hs]
  | c :: x, h => by
    rw [List.forall_mem_cons] at h
    rw [List.cons_append, splitAny, if_neg h.1, splitAny_append_sep hs r h.2]
    rfl

end

/-- the threshold and the keys, each after a comma, split at the commas: the threshold and the
keys, when none of them holds a comma -/
theorem splitAny_commaKeys {x : List Char} (hx : ',' ∉ x) :
    ∀ {keys : List (List Char)}, (∀ k ∈ keys, ',' ∉ k) →
      splitAny [','] (x ++ commaKeys keys) = x :: keys
  | [], _ => by
    have hc : ∀ c ∈ x, c ∉ [','] := fun c hc h => hx (List.mem_singleton.mp h ▸ hc)
    simpa [commaKeys] using splitAny_of_forall_not_mem hc
  | k :: ks, h => by
    have hc : ∀ c ∈ x, c ∉ [','] := fun c hc h => hx (List.mem_singleton.mp h ▸ hc)
    rw [List.forall_mem_cons] at h
    rw [commaKeys, List.flatMap_cons, List.cons_append,
      splitAny_append_sep (List.mem_singleton_self _) _ hc, ← commaKeys, splitAny_commaKeys h.1 h.2]

/-! ## the loop over the keys -/

/-- the loop of the multisig branch over keys that all parse: the signers appended in order, and
the wallet ESCROW when one of them has no xpub -/
theorem parseMultiSigners_run (lib : KeyLib) :
    ∀ {keys : List (List Char)} {parsed : List SingleSigner},
      List.Forall₂ (fun k s => parseSignerString lib k = .ok s) keys parsed → ∀ o : DescriptorOut,
      (parseMultiSigners lib keys).run o = (.ok (),
        { o with signers := o.signers ++ parsed,
                 w := if parsed.any fun s => s.xpub.isEmpty then .escrow else o.w })
  | [], [], .nil, o => by simp [parseMultiSigners]; rfl
  | k :: ks, s :: ss, .cons hs h, o => by
    have hstep : (parseMultiSigners lib (k :: ks)).run o = (parseMultiSigners lib ks).run
        { o with signers := o.signers ++ [s], w := if s.xpub.isEmpty then .escrow else o.w } := by
      simp only [parseMultiSigners, liftParse, hs]
      rfl
    rw [hstep, parseMultiSigners_run lib h]
    cases hx : s.xpub.isEmpty <;> simp [hx]

/-! ## the multisig branch -/

theorem run_bind_ok {α β : Type} {x : ParseM α} {f : α → ParseM β} {s s' : DescriptorOut} {a : α}
    (h : x.run s = (.ok a, s')) : (x >>= f).run s = (f a).run s' := by
  show (ExceptT.bind x f).run s = _
  simp only [ExceptT.bind, ExceptT.run, ExceptT.mk, bind, StateT.bind]
  simp [ExceptT.run] at h
  rw [h]
  rfl

theorem run_modify (g : DescriptorOut → DescriptorOut) (s : DescriptorOut) :
    (modify g : ParseM Unit).run s = (.ok (), g s) := rfl

theorem run_liftParse_ok {α : Type} (a : α) (s : DescriptorOut) :
    (liftParse (.ok a)).run s = (.ok a, s) := rfl

/-- the multisig branch of `ParseDescriptors` on a signer text of the threshold and keys that
parse: `true`, with the type, the threshold, the count and the signers of the keys, and the wallet
ESCROW when a signer has no xpub -/
theorem parseDescriptors_multi {lib : KeyLib} {descs : String} {pre : String} {a : AddressType}
    (hf : prefixMatcher.find? (fun p => p.1.data.isPrefixOf (externalPart descs.data)) =
      some (pre, a, .multiSig))
    (ha : a ≠ .taproot) {m : Int} (hm : -2147483648 ≤ m ∧ m ≤ 2147483647)
    {keys : List (List Char)} {parsed : List SingleSigner}
    (hinfo : splitAny [','] (signerInfo (externalPart descs.data) pre.length) =
      (toString m).data :: keys)
    (hk : List.Forall₂ (fun k s => parseSignerString lib k = .ok s) keys parsed)
    (out : DescriptorOut) :
    parseDescriptors lib descs out = (true, ⟨a,
      if parsed.any fun s => s.xpub.isEmpty then .escrow else .multiSig, m, keys.length,
      out.signers ++ parsed⟩) := by
  unfold parseDescriptors parseBody
  rw [hf]
  dsimp only
  rw [if_neg (by decide), if_neg ha, hinfo, List.headD_cons, stoi_toString hm, List.drop_one,
    List.tail_cons, run_bind_ok (run_modify _ _), run_bind_ok (run_liftParse_ok _ _),
    run_bind_ok (run_modify _ _), run_bind_ok (parseMultiSigners_run lib hk _)]
  have hn : ((keys.length + 1 : Nat) : Int) - 1 = keys.length := by omega
  simp only [List.length_cons, hn]
  rfl

/-! ## the generator -/

theorem mapM_eq_ok {α β ε : Type} {f : α → Except ε β} {g : α → β} (h : ∀ a, f a = .ok (g a)) :
    ∀ l : List α, l.mapM f = .ok (l.map g)
  | [] => rfl
  | a :: l => by
    simp only [List.mapM_cons, h, mapM_eq_ok h l]
    rfl

/-- the segwit or legacy multisig template of the keys, then `#` and the checksum unless the key
path is `TEMPLATE` -/
theorem getDescriptorForSigners_multi {lib : KeyLib} {signers : List SingleSigner} {m : Int}
    {keyPath : DescriptorPath} {a : AddressType} {w : WalletType} {index : Int} {sorted : Bool}
    {keys : List (List Char)} (hw : w ≠ .singleSig) (ha : a ≠ .taproot)
    (hkeys : signers.mapM (signerKey lib w keyPath index) = .ok keys) :
    getDescriptorForSigners lib signers m keyPath a w index sorted =
      .ok (some (String.mk (multiDescriptor a keys m sorted ++
        if keyPath = .template then [] else '#' :: lib.checksum (multiDescriptor a keys m sorted)))) := by
  simp only [getDescriptorForSigners, hkeys, if_neg hw, if_neg ha]
  split <;> simp

/-- the sorted templates begin with their prefix of the table, which holds no `)`, and put the
first `)` right after the threshold and the keys -/
theorem multiDescriptor_sorted {a : AddressType} (ha : a ≠ .taproot) :
    ∃ pre suf, (pre, a, WalletType.multiSig) ∈ prefixMatcher ∧ ')' ∉ pre.data ∧
      '\n' ∉ pre.data ∧ ∀ keys m, multiDescriptor a keys m true =
        pre.data ++ ((toString m).data ++ commaKeys keys) ++ ')' :: suf := by
  cases a
  · exact ⟨"sh(sortedmulti(", [')'], by decide, by decide, by decide,
      fun keys m => by simp [multiDescriptor]⟩
  · exact ⟨"sh(wsh(sortedmulti(", [')', ')'], by decide, by decide, by decide,
      fun keys m => by simp [multiDescriptor]⟩
  · exact ⟨"wsh(sortedmulti(", [')'], by decide, by decide, by decide,
      fun keys m => by simp [multiDescriptor]⟩
  · exact absurd rfl ha

/-- the unsorted templates begin with `sh(multi(`, `sh(wsh(multi(` or `wsh(multi(`, which no
prefix of the table begins or is begun by -/
theorem multiDescriptor_unsorted {a : AddressType} (ha : a ≠ .taproot) :
    ∃ pre : List Char, '\n' ∉ pre ∧
      (∀ e ∈ prefixMatcher, ¬ e.1.data <+: pre ∧ ¬ pre <+: e.1.data) ∧
      ∀ keys m, pre <+: multiDescriptor a keys m false := by
  cases a
  · exact ⟨"sh(multi(".data, by decide, by decide,
      fun keys m => ⟨(toString m).data ++ (commaKeys keys ++ [')', ')']), by simp [multiDescriptor]⟩⟩
  · exact ⟨"sh(wsh(multi(".data, by decide, by decide, fun keys m =>
      ⟨(toString m).data ++ (commaKeys keys ++ [')', ')', ')']), by simp [multiDescriptor]⟩⟩
  · exact ⟨"wsh(multi(".data, by decide, by decide,
      fun keys m => ⟨(toString m).data ++ (commaKeys keys ++ [')', ')']), by simp [multiDescriptor]⟩⟩
  · exact absurd rfl ha

/-! ## the descriptors read back -/

theorem mem_commaKeys {keys : List (List Char)} {c : Char} (h : c ∈ commaKeys keys) :
    c = ',' ∨ ∃ k ∈ keys, c ∈ k := by
  obtain ⟨k, hk, hc⟩ := List.mem_flatMap.mp h
  rcases List.mem_cons.mp hc with rfl | hc
  exacts [.inl rfl, .inr ⟨k, hk, hc⟩]

/-- no prefix of the table begins a text that begins with `pre`, when no prefix of the table
begins `pre` or is begun by it -/
theorem find?_prefixMatcher_eq_none {pre : List Char}
    (hpre : ∀ e ∈ prefixMatcher, ¬ e.1.data <+: pre ∧ ¬ pre <+: e.1.data) {l : List Char}
    (hl : pre <+: l) : prefixMatcher.find? (fun p => p.1.data.isPrefixOf l) = none :=
  List.find?_eq_none.mpr fun e he h => by
    rcases List.prefix_or_prefix_of_prefix (List.isPrefixOf_iff_prefix.mp h) hl with h' | h'
    exacts [(hpre e he).1 h', (hpre e he).2 h']

/-- `ParseDescriptors` answers `false`, writing nothing, when no prefix of the table begins the
external descriptor -/
theorem parseDescriptors_of_find?_none {lib : KeyLib} {descs : String}
    (hf : prefixMatcher.find? (fun p => p.1.data.isPrefixOf (externalPart descs.data)) = none)
    (out : DescriptorOut) : parseDescriptors lib descs out = (false, out) := by
  unfold parseDescriptors parseBody
  rw [hf]
  rfl

/-- a sorted multisig descriptor whose keys hold no `,`, `)` or line break and parse:
`ParseDescriptors` answers `true` with the type, the threshold, the count and the signers of the
keys, whatever follows the template -/
theorem parseDescriptors_multiDescriptor {lib : KeyLib} {a : AddressType} (ha : a ≠ .taproot)
    {m : Int} (hm : -2147483648 ≤ m ∧ m ≤ 2147483647) {keys : List (List Char)}
    {parsed : List SingleSigner} (hkc : ∀ k ∈ keys, ∀ c ∈ k, c ≠ ',' ∧ c ≠ ')' ∧ c ≠ '\n')
    (hk : List.Forall₂ (fun k s => parseSignerString lib k = .ok s) keys parsed)
    (tail : List Char) (out : DescriptorOut) :
    parseDescriptors lib (String.mk (multiDescriptor a keys m true ++ tail)) out = (true, ⟨a,
      if parsed.any fun s => s.xpub.isEmpty then .escrow else .multiSig, m, keys.length,
      out.signers ++ parsed⟩) := by
  obtain ⟨pre, suf, hmem, hpre, hpren, hdesc⟩ := multiDescriptor_sorted ha
  -- the threshold and the keys: no `)` and no line break
  have hinfo : ∀ c ∈ (toString m).data ++ commaKeys keys, c ≠ ')' ∧ c ≠ '\n' := fun c hc => by
    rcases List.mem_append.mp hc with hc | hc
    · exact (mem_toString_int hc).2
    · rcases mem_commaKeys hc with rfl | ⟨k, hk, hc⟩
      exacts [by decide, (hkc k hk c hc).2]
  have hext : externalPart (multiDescriptor a keys m true ++ tail) =
      pre.data ++ ((toString m).data ++ commaKeys keys) ++ ')' :: externalPart (suf ++ tail) := by
    rw [hdesc keys m, List.append_assoc, List.cons_append, externalPart_append_paren]
    rw [List.mem_append, not_or]
    exact ⟨hpren, fun h => (hinfo _ h).2 rfl⟩
  refine @parseDescriptors_multi lib _ pre a (find?_prefixMatcher hmem ?_) ha m hm keys parsed ?_
    hk out
  · dsimp only
    rw [hext, List.append_assoc]
    exact List.prefix_append _ _
  · have hsi : signerInfo (pre.data ++ ((toString m).data ++ commaKeys keys) ++
        ')' :: externalPart (suf ++ tail)) pre.length = (toString m).data ++ commaKeys keys :=
      signerInfo_key hpre (fun h => (hinfo _ h).1 rfl) _
    dsimp only
    rw [hext, hsi]
    exact splitAny_commaKeys (fun h => (mem_toString_int h).1 rfl)
      fun k hk h => (hkc k hk _ h).1 rfl

/-! ## the signers -/

theorem forall₂_of_forall_exists {α β : Type} {R : α → β → Prop} :
    ∀ {l : List α}, (∀ a ∈ l, ∃ b, R a b) → ∃ l', List.Forall₂ R l l'
  | [], _ => ⟨[], .nil⟩
  | a :: l, h => by
    obtain ⟨b, hb⟩ := h a (List.mem_cons_self _ _)
    obtain ⟨l', hl'⟩ := forall₂_of_forall_exists fun x hx => h x (List.mem_cons_of_mem _ hx)
    exact ⟨b :: l', .cons hb hl'⟩

/-- related one by one to `l`, the values of `l'` all have `P` equal to `v`: so `P` holds of one
of them exactly when `v` does and `l` is not empty -/
theorem any_eq_of_forall₂ {α β : Type} {R : α → β → Prop} {P : β → Bool} {v : Bool}
    (hR : ∀ a b, R a b → P b = v) :
    ∀ {l : List α} {l' : List β}, List.Forall₂ R l l' → l'.any P = (v && !l.isEmpty)
  | _, _, .nil => by cases v <;> rfl
  | _, _, .cons h hs => by
    rw [List.any_cons, hR _ _ h, any_eq_of_forall₂ hR hs]
    cases v <;> rfl

theorem isEmpty_mk_eq_false {l : List Char} (h : l ≠ []) : (String.mk l).isEmpty = false :=
  Bool.eq_false_iff.mpr fun he => h (by simpa [String.ext_iff] using (String.isEmpty_iff _).mp he)

/-- the key paths that end in a wildcard, `TEMPLATE` among them: `/*`, `/1/*`, `/0/*`, `/**` -/
theorem getKeyPath_multi {keyPath : DescriptorPath}
    (hk : keyPath = .any ∨ keyPath = .internalAll ∨ keyPath = .externalAll ∨
      keyPath = .template) (index : Int) :
    matchesTail (getKeyPath keyPath index) = true ∧
      ∀ c ∈ getKeyPath keyPath index, c ≠ ']' ∧ c ≠ ')' ∧ c ≠ '\n' ∧ c ≠ ',' := by
  rcases hk with rfl | rfl | rfl | rfl <;> dsimp only [getKeyPath] <;> decide

/-- a key `[fingerprint/path]text` and a key path holds no `,` when none of its parts does -/
theorem comma_free_key {xfp path g3 kp : List Char} (hx : xfp.all isHexChar = true)
    (hpath : ∀ c ∈ path, c ≠ ',') (hg : ∀ c ∈ g3, c ≠ ',') (hkp : ∀ c ∈ kp, c ≠ ',') :
    ∀ c ∈ '[' :: xfp ++ formalizePath path ++ ']' :: g3 ++ kp, c ≠ ',' := by
  have hxc c (hc : c ∈ xfp) : c ≠ ',' := by
    rintro rfl
    exact absurd (List.all_eq_true.mp hx _ hc) (by decide)
  have hfc c (hc : c ∈ formalizePath path) : c ≠ ',' := by
    rcases mem_formalizePath hc with rfl | rfl | hc
    exacts [by decide, by decide, hpath c hc]
  simp only [List.cons_append, List.forall_mem_cons, List.forall_mem_append]
  exact ⟨by decide, ⟨⟨hxc, hfc⟩, by decide, hg⟩, hkp⟩

/-! ## the key of a signer -/

/-- the origin of a signer's key that `ParseDescriptors` reads back: a fingerprint of 8 hex
digits, and a path of two characters or more whose characters `.` matches and are none of `]`,
`)` and `,`, which `GetDerivationPathView` accepts -/
structure KeyOrigin (lib : KeyLib) (s : SingleSigner) : Prop where
  fingerprint : s.masterFingerprint.length = 8 ∧ s.masterFingerprint.data.all isHexChar = true
  path : 2 ≤ s.derivationPath.length ∧
    ∀ c ∈ s.derivationPath.data, isDot c = true ∧ c ≠ ']' ∧ c ≠ ')' ∧ c ≠ ','
  view : ∃ p, getDerivationPathView lib ('m' :: formalizePath s.derivationPath.data) = .ok p

/-- the key `[fingerprint/path]g3` and a key path of such a signer, when `g3` is not empty, its
characters are matched by `.` and none of `]`, `)`, `/` and `,`: it holds no `,`, `)` or line
break, and `SIGNER_REGEX` finds the fingerprint, the formalized path and `g3` in it -/
theorem KeyOrigin.key {lib : KeyLib} {s : SingleSigner} (hs : KeyOrigin lib s) {g3 kp : List Char}
    (hg : g3 ≠ [] ∧ ∀ c ∈ g3, isDot c = true ∧ c ≠ ']' ∧ c ≠ ')' ∧ c ≠ '/' ∧ c ≠ ',')
    (hkt : matchesTail kp = true) (hkc : ∀ c ∈ kp, c ≠ ']' ∧ c ≠ ')' ∧ c ≠ '\n' ∧ c ≠ ',') :
    (∀ c ∈ '[' :: s.masterFingerprint.data ++ formalizePath s.derivationPath.data ++
      ']' :: g3 ++ kp, c ≠ ',' ∧ c ≠ ')' ∧ c ≠ '\n') ∧
    signerRegex ('[' :: s.masterFingerprint.data ++ formalizePath s.derivationPath.data ++
      ']' :: g3 ++ kp) = some (s.masterFingerprint.data, formalizePath s.derivationPath.data, g3) := by
  have hpath : ∀ c ∈ s.derivationPath.data, isDot c = true ∧ c ≠ ']' ∧ c ≠ ')' :=
    fun c hc => ⟨(hs.path.2 c hc).1, (hs.path.2 c hc).2.1, (hs.path.2 c hc).2.2.1⟩
  have hg' : ∀ c ∈ g3, isDot c = true ∧ c ≠ ']' ∧ c ≠ ')' ∧ c ≠ '/' :=
    fun c hc => ⟨(hg.2 c hc).1, (hg.2 c hc).2.1, (hg.2 c hc).2.2.1, (hg.2 c hc).2.2.2.1⟩
  have hkc' : ∀ c ∈ kp, c ≠ ']' ∧ c ≠ ')' ∧ c ≠ '\n' :=
    fun c hc => ⟨(hkc c hc).1, (hkc c hc).2.1, (hkc c hc).2.2.1⟩
  have hchars := signerKey_chars hs.fingerprint.2 hpath hg' hkc'
  have hcomma := comma_free_key hs.fingerprint.2 (fun c hc => (hs.path.2 c hc).2.2.2)
    (fun c hc => (hg.2 c hc).2.2.2.2) (fun c hc => (hkc c hc).2.2.2)
  exact ⟨fun c hc => ⟨hcomma c hc, hchars c hc⟩,
    signerRegex_signerKey hs.fingerprint ⟨hs.path.1, hpath⟩ ⟨hg.1, hg'⟩ hkt hkc'⟩

/-! ## multisig wallets -/

/-- the signers of a multisig wallet whose key `ParseDescriptors` reads back: an origin as above,
and an xpub beginning with `xpub` or `tpub` whose characters `.` matches and are none of `]`,
`)`, `/` and `,` -/
structure MultiSigner (lib : KeyLib) (s : SingleSigner) extends KeyOrigin lib s : Prop where
  xpub : ("xpub".data <+: s.xpub.data ∨ "tpub".data <+: s.xpub.data) ∧
    ∀ c ∈ s.xpub.data, isDot c = true ∧ c ≠ ']' ∧ c ≠ ')' ∧ c ≠ '/' ∧ c ≠ ','

theorem MultiSigner.xpub_ne_nil {lib : KeyLib} {s : SingleSigner} (hs : MultiSigner lib s) :
    s.xpub.data ≠ [] := by
  rintro h
  rcases hs.xpub.1 with ⟨t, ht⟩ | ⟨t, ht⟩ <;> rw [h] at ht <;> cases ht

/-- the key of such a signer, on a key path ending in a wildcard: it holds no `,`, `)` or line
break, and `ParseSignerString` reads the signer back from it -/
theorem MultiSigner.key {lib : KeyLib} {s : SingleSigner} (hs : MultiSigner lib s) {p : List Char}
    (hp : getDerivationPathView lib ('m' :: formalizePath s.derivationPath.data) = .ok p)
    {keyPath : DescriptorPath}
    (hk : keyPath = .any ∨ keyPath = .internalAll ∨ keyPath = .externalAll ∨
      keyPath = .template) (index : Int) :
    (∀ c ∈ '[' :: s.masterFingerprint.data ++ formalizePath s.derivationPath.data ++
      ']' :: s.xpub.data ++ getKeyPath keyPath index, c ≠ ',' ∧ c ≠ ')' ∧ c ≠ '\n') ∧
    parseSignerString lib ('[' :: s.masterFingerprint.data ++ formalizePath s.derivationPath.data ++
      ']' :: s.xpub.data ++ getKeyPath keyPath index) =
      .ok ⟨s.masterFingerprint, s.xpub, "", String.mk p,
        String.mk (s.masterFingerprint.data.map Char.toLower)⟩ := by
  obtain ⟨hkt, hkc⟩ := getKeyPath_multi hk index
  have hkey := hs.toKeyOrigin.key ⟨hs.xpub_ne_nil, hs.xpub.2⟩ hkt hkc
  exact ⟨hkey.1, parseSignerString_xpub hkey.2 hp hs.xpub.1⟩

/-- a sorted descriptor whose keys `key s` hold no `,`, `)` or line break, and which
`ParseSignerString` reads as the signers `parsed`, all with an xpub or all without one as `v` says:
`ParseDescriptors` answers `true` with those signers, and ESCROW exactly when they have none -/
theorem sorted_read_back {lib : KeyLib} {signers : List SingleSigner} {m : Int}
    (hm : -2147483648 ≤ m ∧ m ≤ 2147483647) {keyPath : DescriptorPath} {a : AddressType}
    (ha : a ≠ .taproot) {w : WalletType} (hw : w ≠ .singleSig) {index : Int} (out : DescriptorOut)
    {key : SingleSigner → List Char} (hkeys : ∀ s, signerKey lib w keyPath index s = .ok (key s))
    (hkc : ∀ s ∈ signers, ∀ c ∈ key s, c ≠ ',' ∧ c ≠ ')' ∧ c ≠ '\n')
    {R : SingleSigner → SingleSigner → Prop} {v : Bool} {parsed : List SingleSigner}
    (hR : List.Forall₂ (fun s s' => R s s' ∧ parseSignerString lib (key s) = .ok s' ∧
      s'.xpub.isEmpty = v) signers parsed) :
    ∃ d, getDescriptorForSigners lib signers m keyPath a w index true = .ok (some d) ∧
      parseDescriptors lib d out = (true, ⟨a, if v && !signers.isEmpty then .escrow else .multiSig,
        m, signers.length, out.signers ++ parsed⟩) := by
  refine ⟨_, getDescriptorForSigners_multi hw ha (mapM_eq_ok hkeys signers), ?_⟩
  rw [parseDescriptors_multiDescriptor ha hm (List.forall_mem_map.mpr hkc)
    (List.forall₂_map_left_iff.mpr (hR.imp fun _ _ h => h.2.1)),
    any_eq_of_forall₂ (fun _ _ h => h.2.2) hR, List.length_map]

/-- A sorted multisig descriptor of a segwit or legacy wallet, on a key path ending in a wildcard
(`TEMPLATE` among them), is read back: for any `int` threshold and signers whose fingerprint is 8
hex digits, whose path and xpub (beginning with `xpub` or `tpub`, without `/`) hold no `]`, `)`,
`,` or line terminator, and whose path `GetDerivationPathView` accepts, `ParseDescriptors` answers
`true` with the address type, MULTI_SIG, the threshold, the number of signers, and one signer per
signer in order: its fingerprint, its xpub, the path `GetDerivationPathView` gives, and the
fingerprint lower-cased. -/
theorem multi_sig_read_back (lib : KeyLib) (signers : List SingleSigner) {m : Int}
    (hm : -2147483648 ≤ m ∧ m ≤ 2147483647) {keyPath : DescriptorPath}
    (hk : keyPath = .any ∨ keyPath = .internalAll ∨ keyPath = .externalAll ∨
      keyPath = .template)
    {a : AddressType} (ha : a ≠ .taproot) (index : Int) (out : DescriptorOut)
    (hs : ∀ s ∈ signers, MultiSigner lib s) :
    ∃ d parsed,
      getDescriptorForSigners lib signers m keyPath a .multiSig index true = .ok (some d) ∧
      List.Forall₂ (fun s s' => ∃ p,
        getDerivationPathView lib ('m' :: formalizePath s.derivationPath.data) = .ok p ∧
        s' = ⟨s.masterFingerprint, s.xpub, "", String.mk p,
          String.mk (s.masterFingerprint.data.map Char.toLower)⟩) signers parsed ∧
      parseDescriptors lib d out =
        (true, ⟨a, .multiSig, m, signers.length, out.signers ++ parsed⟩) := by
  have hk' : keyPath ≠ .externalPubkey ∧ keyPath ≠ .internalPubkey := by
    rcases hk with rfl | rfl | rfl | rfl <;> decide
  -- each signer, with the path it is read back with, the parse of its key, and its xpub
  obtain ⟨parsed, hR⟩ : ∃ parsed, List.Forall₂ (fun s s' => (∃ p,
      getDerivationPathView lib ('m' :: formalizePath s.derivationPath.data) = .ok p ∧
      s' = ⟨s.masterFingerprint, s.xpub, "", String.mk p,
        String.mk (s.masterFingerprint.data.map Char.toLower)⟩) ∧
      parseSignerString lib ('[' :: s.masterFingerprint.data ++ formalizePath s.derivationPath.data ++
        ']' :: s.xpub.data ++ getKeyPath keyPath index) = .ok s' ∧
      s'.xpub.isEmpty = false) signers parsed := forall₂_of_forall_exists fun s hsm => by
    obtain ⟨p, hp⟩ := (hs s hsm).view
    exact ⟨_, ⟨p, hp, rfl⟩, ((hs s hsm).key hp hk index).2,
      isEmpty_mk_eq_false (hs s hsm).xpub_ne_nil⟩
  obtain ⟨d, hd, hp⟩ := sorted_read_back hm ha (by decide) out
    (signerKey_xpub lib (by decide : WalletType.multiSig ≠ .escrow) hk' index)
    (fun s hsm => by obtain ⟨p, hp⟩ := (hs s hsm).view; exact ((hs s hsm).key hp hk index).1) hR
  exact ⟨d, parsed, hd, hR.imp fun _ _ h => h.1, hp⟩

/-- two cosigners of a 2-of-2 wallet at the BIP48 paths of their networks, the second with an
upper-case fingerprint -/
def cosigners : List SingleSigner :=
  [⟨"", "xpub6A", "", "m/48h/0h/0h/2h", "73c5da0a"⟩, ⟨"", "tpubD6", "", "m/48h/1h/0h/2h", "F57EC65D"⟩]

theorem multi_sig_read_back_two_of_two :
    (-2147483648 ≤ (2 : Int) ∧ (2 : Int) ≤ 2147483647) ∧
    (DescriptorPath.externalAll = .any ∨ DescriptorPath.externalAll = .internalAll ∨
      DescriptorPath.externalAll = .externalAll ∨ DescriptorPath.externalAll = .template) ∧
    AddressType.nativeSegwit ≠ .taproot ∧ (∀ s ∈ cosigners, MultiSigner zeroChecksumLib s) ∧
    ∃ d, getDescriptorForSigners zeroChecksumLib cosigners 2 .externalAll .nativeSegwit .multiSig 0
        true = .ok (some d) ∧
      parseDescriptors zeroChecksumLib d ⟨.legacy, .multiSig, 0, 0, []⟩ =
        (true, ⟨.nativeSegwit, .multiSig, 2, 2,
          [⟨"73c5da0a", "xpub6A", "", "m/48h/0h/0h/2h", "73c5da0a"⟩,
           ⟨"F57EC65D", "tpubD6", "", "m/48h/1h/0h/2h", "f57ec65d"⟩]⟩) := by
  have hs : ∀ s ∈ cosigners, MultiSigner zeroChecksumLib s := by
    simp only [cosigners, List.mem_cons, List.mem_singleton, List.not_mem_nil, or_false]
    rintro s (rfl | rfl) <;> exact ⟨⟨by decide, by decide, _, rfl⟩, by decide⟩
  refine ⟨by decide, .inr (.inr (.inl rfl)), by decide, hs, ?_⟩
  obtain ⟨d, parsed, hd, hR, hp⟩ := @multi_sig_read_back zeroChecksumLib cosigners 2 (by decide)
    .externalAll (.inr (.inr (.inl rfl))) .nativeSegwit (by decide) 0 ⟨.legacy, .multiSig, 0, 0, []⟩
    hs
  simp only [cosigners, List.forall₂_cons_left_iff, List.forall₂_nil_left_iff] at hR
  obtain ⟨_, _, ⟨p1, hp1, rfl⟩, ⟨_, _, ⟨p2, hp2, rfl⟩, rfl, rfl⟩, rfl⟩ := hR
  obtain rfl := (Except.ok.inj hp1).symm
  obtain rfl := (Except.ok.inj hp2).symm
  exact ⟨d, hd, hp⟩

/-! ## escrow wallets -/

/-- the public key of an ESCROW key of `GetDescriptorForSigners`: the signer's, or the one of its
xpub when it has none -/
def escrowPubkey (lib : KeyLib) (s : SingleSigner) : List Char :=
  if s.publicKey.isEmpty then lib.pubkeyOf s.xpub else s.publicKey.data

theorem signerKey_escrow (lib : KeyLib) (keyPath : DescriptorPath) (index : Int)
    (s : SingleSigner) :
    signerKey lib .escrow keyPath index s = .ok ('[' :: s.masterFingerprint.data ++
      formalizePath s.derivationPath.data ++ ']' :: escrowPubkey lib s) := rfl

/-- the signers of an escrow wallet whose key `ParseDescriptors` reads back: an origin as above,
and a public key that is not empty, begins with neither `xpub` nor `tpub`, and whose characters
`.` matches and are none of `]`, `)`, `/` and `,` -/
structure EscrowSigner (lib : KeyLib) (s : SingleSigner) extends KeyOrigin lib s : Prop where
  pubkey : escrowPubkey lib s ≠ [] ∧ ¬ "xpub".data <+: escrowPubkey lib s ∧
    ¬ "tpub".data <+: escrowPubkey lib s ∧
    ∀ c ∈ escrowPubkey lib s, isDot c = true ∧ c ≠ ']' ∧ c ≠ ')' ∧ c ≠ '/' ∧ c ≠ ','

/-- a signer text matched with a group 3 that begins with neither `xpub` nor `tpub` reads as that
public key, with no xpub -/
theorem parseSignerString_pubkey {lib : KeyLib} {s g1 g2 g3 p : List Char}
    (hs : signerRegex s = some (g1, g2, g3))
    (hview : getDerivationPathView lib ('m' :: g2) = .ok p)
    (hx : ¬ "xpub".data <+: g3 ∧ ¬ "tpub".data <+: g3) :
    parseSignerString lib s =
      .ok ⟨String.mk g1, "", String.mk g3, String.mk p, String.mk (g1.map Char.toLower)⟩ := by
  have hpre : ("tpub".data.isPrefixOf g3 || "xpub".data.isPrefixOf g3) = false :=
    Bool.or_eq_false_iff.mpr
      ⟨Bool.eq_false_iff.mpr fun h => hx.2 (List.isPrefixOf_iff_prefix.mp h),
        Bool.eq_false_iff.mpr fun h => hx.1 (List.isPrefixOf_iff_prefix.mp h)⟩
  simp only [parseSignerString, hs, hview, hpre]
  rfl

/-- An escrow descriptor of a segwit or legacy wallet, written sorted on any key path, is read
back: for any `int` threshold and a nonempty list of signers whose fingerprint is 8 hex digits,
whose path holds no `]`, `)`, `,` or line terminator and is accepted by `GetDerivationPathView`,
and whose public key (its own, or the one of its xpub) is not empty, begins with neither `xpub`
nor `tpub` and holds none of those characters nor `/`, `ParseDescriptors` answers `true` with the
address type, ESCROW (no signer read back has an xpub), the threshold, the number of signers, and
one signer per signer in order: its fingerprint, the public key, the path `GetDerivationPathView`
gives, and the fingerprint lower-cased. -/
theorem escrow_read_back (lib : KeyLib) {signers : List SingleSigner} (hne : signers ≠ [])
    {m : Int} (hm : -2147483648 ≤ m ∧ m ≤ 2147483647) (keyPath : DescriptorPath)
    {a : AddressType} (ha : a ≠ .taproot) (index : Int) (out : DescriptorOut)
    (hs : ∀ s ∈ signers, EscrowSigner lib s) :
    ∃ d parsed,
      getDescriptorForSigners lib signers m keyPath a .escrow index true = .ok (some d) ∧
      List.Forall₂ (fun s s' => ∃ p,
        getDerivationPathView lib ('m' :: formalizePath s.derivationPath.data) = .ok p ∧
        s' = ⟨s.masterFingerprint, "", String.mk (escrowPubkey lib s), String.mk p,
          String.mk (s.masterFingerprint.data.map Char.toLower)⟩) signers parsed ∧
      parseDescriptors lib d out =
        (true, ⟨a, .escrow, m, signers.length, out.signers ++ parsed⟩) := by
  -- the key of each signer: no `,`, `)` or line break, and the groups `SIGNER_REGEX` finds
  have hkey : ∀ s ∈ signers, (∀ c ∈ '[' :: s.masterFingerprint.data ++
      formalizePath s.derivationPath.data ++ ']' :: escrowPubkey lib s,
      c ≠ ',' ∧ c ≠ ')' ∧ c ≠ '\n') ∧
      signerRegex ('[' :: s.masterFingerprint.data ++ formalizePath s.derivationPath.data ++
        ']' :: escrowPubkey lib s) = some (s.masterFingerprint.data,
          formalizePath s.derivationPath.data, escrowPubkey lib s) := fun s hsm => by
    have h := @KeyOrigin.key lib s (hs s hsm).toKeyOrigin _ []
      ⟨(hs s hsm).pubkey.1, (hs s hsm).pubkey.2.2.2⟩ rfl fun c hc => absurd hc (List.not_mem_nil c)
    simpa only [List.append_nil] using h
  -- each signer, with the path it is read back with, and the parse of its key
  obtain ⟨parsed, hR⟩ : ∃ parsed, List.Forall₂ (fun s s' => (∃ p,
      getDerivationPathView lib ('m' :: formalizePath s.derivationPath.data) = .ok p ∧
      s' = ⟨s.masterFingerprint, "", String.mk (escrowPubkey lib s), String.mk p,
        String.mk (s.masterFingerprint.data.map Char.toLower)⟩) ∧
      parseSignerString lib ('[' :: s.masterFingerprint.data ++ formalizePath s.derivationPath.data ++
        ']' :: escrowPubkey lib s) = .ok s' ∧ s'.xpub.isEmpty = true) signers parsed :=
    forall₂_of_forall_exists fun s hsm => by
      obtain ⟨p, hp⟩ := (hs s hsm).view
      exact ⟨_, ⟨p, hp, rfl⟩, parseSignerString_pubkey (hkey s hsm).2 hp
        ⟨(hs s hsm).pubkey.2.1, (hs s hsm).pubkey.2.2.1⟩, rfl⟩
  obtain ⟨d, hd, hp⟩ := sorted_read_back hm ha (by decide) out (signerKey_escrow lib keyPath index)
    (fun s hsm => (hkey s hsm).1) hR
  refine ⟨d, parsed, hd, hR.imp fun _ _ h => h.1, ?_⟩
  simpa [hne] using hp

/-- two signers of a 1-of-2 escrow wallet, by their public keys -/
def escrowSigners : List SingleSigner :=
  [⟨"", "", "02a1b2c3", "m/45h", "73c5da0a"⟩, ⟨"", "", "03d4e5f6", "m/45h", "f57ec65d"⟩]

theorem escrow_read_back_one_of_two :
    escrowSigners ≠ [] ∧ (-2147483648 ≤ (1 : Int) ∧ (1 : Int) ≤ 2147483647) ∧
    AddressType.legacy ≠ .taproot ∧ (∀ s ∈ escrowSigners, EscrowSigner zeroChecksumLib s) ∧
    ∃ d, getDescriptorForSigners zeroChecksumLib escrowSigners 1 .externalAll .legacy .escrow 0
        true = .ok (some d) ∧
      parseDescriptors zeroChecksumLib d ⟨.legacy, .multiSig, 0, 0, []⟩ =
        (true, ⟨.legacy, .escrow, 1, 2,
          [⟨"73c5da0a", "", "02a1b2c3", "m/45h", "73c5da0a"⟩,
           ⟨"f57ec65d", "", "03d4e5f6", "m/45h", "f57ec65d"⟩]⟩) := by
  have hs : ∀ s ∈ escrowSigners, EscrowSigner zeroChecksumLib s := by
    simp only [escrowSigners, List.mem_cons, List.mem_singleton, List.not_mem_nil, or_false]
    rintro s (rfl | rfl) <;> exact ⟨⟨by decide, by decide, _, rfl⟩, by decide⟩
  refine ⟨List.cons_ne_nil _ _, by decide, by decide, hs, ?_⟩
  obtain ⟨d, parsed, hd, hR, hp⟩ := @escrow_read_back zeroChecksumLib escrowSigners
    (List.cons_ne_nil _ _) 1 (by decide) .externalAll .legacy (by decide) 0
    ⟨.legacy, .multiSig, 0, 0, []⟩ hs
  simp only [escrowSigners, List.forall₂_cons_left_iff, List.forall₂_nil_left_iff] at hR
  obtain ⟨_, _, ⟨p1, hp1, rfl⟩, ⟨_, _, ⟨p2, hp2, rfl⟩, rfl, rfl⟩, rfl⟩ := hR
  obtain rfl := (Except.ok.inj hp1).symm
  obtain rfl := (Except.ok.inj hp2).symm
  exact ⟨d, hd, hp⟩

/-! ## unsorted descriptors -/

theorem externalPart_append {l : List Char} (hl : '\n' ∉ l) (r : List Char) :
    externalPart (l ++ r) = l ++ externalPart r := by
  rw [externalPart, List.takeWhile_append_of_pos fun c hc => by
    simpa using ne_of_mem_of_not_mem hc hl]
  rfl

/-- For any signers, threshold and key path, `ParseDescriptors` NEVER reads back the descriptor
`GetDescriptorForSigners` writes unsorted for a segwit or legacy multisig or escrow wallet: no
prefix of `PREFIX_MATCHER` begins `sh(multi(`, `sh(wsh(multi(` or `wsh(multi(`, so it answers
`false` and writes nothing. -/
theorem unsorted_multi_not_read_back (lib : KeyLib) (signers : List SingleSigner) (m : Int)
    (keyPath : DescriptorPath) {a : AddressType} (ha : a ≠ .taproot) {w : WalletType}
    (hw : w ≠ .singleSig) (index : Int) (out : DescriptorOut) {d : String}
    (h : getDescriptorForSigners lib signers m keyPath a w index false = .ok (some d)) :
    parseDescriptors lib d out = (false, out) := by
  obtain ⟨pre, hpren, hpre, hdesc⟩ := multiDescriptor_unsorted ha
  cases hk : signers.mapM (signerKey lib w keyPath index) with
  | error e =>
    rw [getDescriptorForSigners, hk] at h
    cases h
  | ok keys =>
    rw [getDescriptorForSigners_multi hw ha hk] at h
    obtain rfl := (Option.some.inj (Except.ok.inj h)).symm
    obtain ⟨r, hr⟩ := hdesc keys m
    refine parseDescriptors_of_find?_none (find?_prefixMatcher_eq_none hpre ?_) out
    dsimp only
    rw [← hr, List.append_assoc, externalPart_append hpren]
    exact List.prefix_append _ _

theorem unsorted_multi_not_read_back_native :
    AddressType.nativeSegwit ≠ .taproot ∧ WalletType.multiSig ≠ .singleSig ∧
    ∃ d, getDescriptorForSigners zeroChecksumLib cosigners 2 .externalAll .nativeSegwit .multiSig 0
        false = .ok (some d) ∧
      parseDescriptors zeroChecksumLib d ⟨.legacy, .multiSig, 0, 0, []⟩ =
        (false, ⟨.legacy, .multiSig, 0, 0, []⟩) :=
  ⟨by decide, by decide, _, rfl, @unsorted_multi_not_read_back zeroChecksumLib cosigners 2
    .externalAll .nativeSegwit (by decide) .multiSig (by decide) 0 _ _ rfl⟩

end Nunchuk
