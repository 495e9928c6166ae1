import Mathlib.Algebra.Group.Nat.Basic
import NunchukWallet.Basic

/-!
# Descriptors of a signer set: the generator

`GetDescriptorForSigners` (dto/sandboxgroup.cpp) writes the output descriptor of a wallet: one
key per signer, `[fingerprint/path]xpub/0/*`, inside a script template chosen by the address
type and the wallet type, then `#` and the checksum. A `std::string` is its list of characters.

* `AddressType`, `WalletType`, `DescriptorPath`, `SingleSigner`   what the generator reads;
* `KeyLib`                      the Bitcoin Core calls it makes (checksum, key derivation, BIP32
                                keypaths), which are not among the sources;
* `formalizePath`, `getKeyPath`, `getDerivationPathView`   the paths; `mem_formalizePath`, a
                                formalized path adds only `/` and `'` to the characters of the
                                path;
* `pairNodes`, `getScriptpathDescriptor`   the balanced script tree of the taproot leaves;
* `prevPermutation`, `prevPermutations`, `getMusigDescriptor`   the taproot `musig` descriptor,
                                whose leaves are the other choices of `m` of the keys in the
                                order `std::prev_permutation` steps through them;
* `signerKey`, `getDescriptorForSigners`   the keys and the descriptor.
-/

namespace Nunchuk

/-- Modelled from the spec: `AddressType` of `nunchuk.h` (not among the sources), the values
the descriptor code names -/
inductive AddressType where
  | legacy
  | nestedSegwit
  | nativeSegwit
  | taproot
deriving DecidableEq, Repr

/-- Modelled from the spec: `WalletType` of `nunchuk.h` -/
inductive WalletType where
  | singleSig
  | multiSig
  | escrow
deriving DecidableEq, Repr

/-- Modelled from the spec: `DescriptorPath` of `nunchuk.h`, the key path after a signer's
derivation path -/
inductive DescriptorPath where
  | any
  | internalAll
  | internalPubkey
  | internalXpub
  | externalAll
  | externalPubkey
  | externalXpub
  | template
deriving DecidableEq, Repr

/-- the fields of `SingleSigner` the descriptor code reads and writes -/
structure SingleSigner where
  name : String
  xpub : String
  publicKey : String
  derivationPath : String
  masterFingerprint : String
deriving DecidableEq, Repr

/-- Modelled from the spec: the Bitcoin Core functions the descriptor code calls, which are not
among the sources (key derivation is an external collaborator) -/
structure KeyLib where
  /-- `GetDescriptorChecksum(desc)` -/
  checksum : List Char → List Char
  /-- `HexStr(DecodeExtPubKey(xpub).pubkey)` -/
  pubkeyOf : String → List Char
  /-- `HexStr` of the key of `DecodeExtPubKey(xpub)` derived at `change` then at `index`;
  `none` when a `Derive` fails -/
  childPubkey : String → Nat → Int → Option (List Char)
  /-- `ParseHDKeypath` of a keypath, written back by `WriteHDKeypath`; `none` when it does not
  parse -/
  hdKeypath : List Char → Option (List Char)

/-- a `NunchukException` of the descriptor code, or a `std::stoi` that throws -/
inductive DescriptorError where
  | invalidParameter (msg : String)
  | invalidBip32Path (msg : String)
  | stoi
deriving DecidableEq, Repr

/-! ## paths -/

/-- `std::replace(s.begin(), s.end(), a, b)` -/
def replaceChar (a b : Char) (s : List Char) : List Char := s.map fun c => if c = a then b else c

/-- `FormalizePath(path)`: the leading `m` removed, `h` written `'`, and a leading `/` -/
def formalizePath (path : List Char) : List Char :=
  let rs := if path.head? = some 'm' then path.drop 1 else path
  let rs := replaceChar 'h' '\'' rs
  match rs with
  | [] => []
  | c :: cs => if c ≠ '/' then '/' :: c :: cs else c :: cs

/-- a character of a formalized path is `/`, `'` or a character of the path -/
theorem mem_formalizePath {p : List Char} {c : Char} (hc : c ∈ formalizePath p) :
    c = '/' ∨ c = '\'' ∨ c ∈ p := by
  have hq : ∀ y ∈ (if p.head? = some 'm' then p.drop 1 else p), y ∈ p := by
    split_ifs
    exacts [fun y hy => List.mem_of_mem_drop hy, fun y hy => hy]
  have hrs : ∀ x ∈ replaceChar 'h' '\'' (if p.head? = some 'm' then p.drop 1 else p),
      x = '\'' ∨ x ∈ p := by
    simp only [replaceChar, List.mem_map]
    rintro x ⟨y, hy, rfl⟩
    split_ifs
    exacts [.inl rfl, .inr (hq y hy)]
  simp only [formalizePath] at hc
  generalize replaceChar 'h' '\'' (if p.head? = some 'm' then p.drop 1 else p) = rs at hc hrs
  cases rs with
  | nil => cases hc
  | cons c' cs =>
    dsimp only at hc
    split_ifs at hc
    · rcases List.mem_cons.mp hc with rfl | hc
      · exact .inl rfl
      · exact .inr (hrs c hc)
    · exact .inr (hrs c hc)

/-- a path of two characters or more is not formalized to nothing -/
theorem formalizePath_ne_nil {p : List Char} (hp : 2 ≤ p.length) : formalizePath p ≠ [] := by
  have hrs : replaceChar 'h' '\'' (if p.head? = some 'm' then p.drop 1 else p) ≠ [] := by
    simp only [replaceChar, ne_eq, List.map_eq_nil_iff]
    split_ifs <;> intro h
    · simp only [List.drop_eq_nil_iff] at h; omega
    · simp [h] at hp
  simp only [formalizePath]
  generalize replaceChar 'h' '\'' (if p.head? = some 'm' then p.drop 1 else p) = rs at hrs
  cases rs with
  | nil => exact absurd rfl hrs
  | cons c' cs => dsimp only; split_ifs <;> simp

/-- `GetKeyPath(path, index)` -/
def getKeyPath (path : DescriptorPath) (index : Int) : List Char :=
  match path with
  | .any => "/*".data
  | .internalAll => "/1/*".data
  | .internalPubkey | .internalXpub => "/1/".data ++ (toString index).data
  | .externalAll => "/0/*".data
  | .externalPubkey | .externalXpub => "/0/".data ++ (toString index).data
  | .template => "/**".data

/-- `GetDerivationPathView(path)`: the keypath with `'` read as `h`, normalized by Bitcoin Core,
written back with `h` -/
def getDerivationPathView (lib : KeyLib) (path : List Char) : Except DescriptorError (List Char) :=
  match lib.hdKeypath (replaceChar 'h' '\'' path) with
  | some p => .ok (replaceChar '\'' 'h' p)
  | none => .error (.invalidParameter "Invalid derivation path")

/-! ## the taproot script tree -/

/-- one level of `GetScriptpathDescriptor`: the nodes paired left to right into `{a,b}`, an odd
last node kept -/
def pairNodes : List (List Char) → List (List Char)
  | a :: b :: rest => ('{' :: a ++ ',' :: b ++ ['}']) :: pairNodes rest
  | l => l

theorem length_pairNodes_le : ∀ l : List (List Char), (pairNodes l).length ≤ l.length
  | a :: b :: rest => by
    simp only [pairNodes, List.length_cons]
    have := length_pairNodes_le rest
    omega
  | [] | [_] => Nat.le_refl _

/-- `GetScriptpathDescriptor(nodes)`: pairs the nodes level by level up to one; on no node it
recurses forever, `none` here -/
def getScriptpathDescriptor (nodes : List (List Char)) : Option (List Char) :=
  match nodes with
  | [] => none
  | [a] => some a
  | a :: b :: rest => getScriptpathDescriptor (pairNodes (a :: b :: rest))
termination_by nodes.length
decreasing_by
  simp only [pairNodes, List.length_cons]
  have := length_pairNodes_le rest
  omega

theorem getScriptpathDescriptor_singleton (a : List Char) :
    getScriptpathDescriptor [a] = some a := by
  rw [getScriptpathDescriptor]

theorem getScriptpathDescriptor_cons_cons (a b : List Char) (rest : List (List Char)) :
    getScriptpathDescriptor (a :: b :: rest) =
      getScriptpathDescriptor (pairNodes (a :: b :: rest)) := by
  rw [getScriptpathDescriptor]

/-- `std::prev_permutation` on a `std::vector<bool>` (`false < true`): the previous arrangement
in lexicographic order, or `none` when there is none. From the right: the tail is rearranged
if it can be; otherwise it is `false…false true…true`, and a head `true` over a tail with a
`false` swaps with the last `false`, the tail then reversed. -/
def prevPermutation : List Bool → Option (List Bool)
  | [] => none
  | x :: xs =>
    match prevPermutation xs with
    | some ys => some (x :: ys)
    | none =>
      if x && xs.contains false then
        some (false :: (List.replicate (xs.count true + 1) true ++
          List.replicate (xs.count false - 1) false))
      else none

/-- a vector of `bool` read as a binary number, the first element the most significant -/
def binValue : List Bool → Nat
  | [] => 0
  | b :: bs => (if b then 2 ^ bs.length else 0) + binValue bs

theorem binValue_lt : ∀ bs : List Bool, binValue bs < 2 ^ bs.length
  | [] => Nat.zero_lt_one
  | b :: bs => by
    have := binValue_lt bs
    simp only [binValue, List.length_cons, Nat.pow_succ]
    split <;> omega

theorem binValue_replicate_append (a b : Nat) :
    binValue (List.replicate a true ++ List.replicate b false) < 2 ^ (a + b) := by
  have := binValue_lt (List.replicate a true ++ List.replicate b false)
  simpa only [List.length_append, List.length_replicate] using this

theorem count_true_add_count_false : ∀ bs : List Bool, bs.count true + bs.count false = bs.length
  | [] => rfl
  | b :: bs => by
    have := count_true_add_count_false bs
    cases b <;> simp only [List.count_cons, List.length_cons, beq_self_eq_true,
      Bool.true_beq, Bool.false_beq, if_true, if_false, Bool.false_eq_true, Bool.not_true,
      Bool.not_false] <;> omega

theorem count_false_pos {bs : List Bool} (h : bs.contains false = true) : 0 < bs.count false :=
  List.count_pos_iff.mpr (List.mem_of_elem_eq_true h)

/-- the previous arrangement has the same length and a lower value -/
theorem prevPermutation_spec : ∀ {v w : List Bool}, prevPermutation v = some w →
    w.length = v.length ∧ binValue w < binValue v
  | [], _, h => by cases h
  | x :: xs, w, h => by
    unfold prevPermutation at h
    split at h
    · next ys hys =>
      cases h
      obtain ⟨hl, hv⟩ := prevPermutation_spec hys
      refine ⟨by rw [List.length_cons, List.length_cons, hl], ?_⟩
      simp only [binValue, hl]
      omega
    · split at h
      · next hx =>
        cases h
        obtain ⟨rfl, hf⟩ := Bool.and_eq_true_iff.mp hx
        have hc := count_true_add_count_false xs
        have hp := count_false_pos hf
        have hlt := binValue_replicate_append (xs.count true + 1) (xs.count false - 1)
        have he : xs.count true + 1 + (xs.count false - 1) = xs.length := by omega
        rw [he] at hlt
        refine ⟨by simp only [List.length_cons, List.length_append, List.length_replicate, he], ?_⟩
        show 0 + binValue _ < 2 ^ xs.length + binValue xs
        omega
      · cases h

/-- the arrangements the loop `while (std::prev_permutation(v.begin(), v.end()))` visits after
`v`, in order -/
def prevPermutations (v : List Bool) : List (List Bool) :=
  match hv : prevPermutation v with
  | some w =>
    have := (prevPermutation_spec hv).2
    w :: prevPermutations w
  | none => []
termination_by binValue v

/-- the `musig(...)` of the keys chosen by `v` -/
def musig (keys : List (List Char)) (v : List Bool) : List Char :=
  "musig(".data ++ List.intercalate [','] ((keys.zip v).filterMap fun (k, b) =>
    if b then some k else none) ++ [')']

/-- `GetMusigDescriptor(keys, m)`: the first `m` keys as the key path; with fewer than all, the
other choices of `m` keys as `pk(musig(...))` leaves of the script tree. `std::fill` of `v`
with `m` outside `0..n` writes outside the vector; here the choice is then all or no key. -/
def getMusigDescriptor (keys : List (List Char)) (m : Int) : Option (List Char) :=
  let v := (List.range keys.length).map fun i => decide ((i : Int) < m)
  if (keys.length : Int) = m then some ("tr(".data ++ musig keys v ++ [')'])
  else
    let leaves := (prevPermutations v).map fun u => "pk(".data ++ musig keys u ++ [')']
    (getScriptpathDescriptor leaves).map fun t => "tr(".data ++ musig keys v ++ [','] ++ t ++ [')']

/-! ## the descriptor -/

/-- the key of one signer in `GetDescriptorForSigners`: its fingerprint and path, then its
public key (escrow), the public key derived at the key path (multisig, for a `PUBKEY` path), or
its xpub and the key path -/
def signerKey (lib : KeyLib) (walletType : WalletType) (keyPath : DescriptorPath) (index : Int)
    (signer : SingleSigner) : Except DescriptorError (List Char) :=
  let keypath := getKeyPath keyPath index
  let head := '[' :: signer.masterFingerprint.data
  if walletType = .escrow then
    let pubkey := if signer.publicKey.isEmpty then lib.pubkeyOf signer.xpub
      else signer.publicKey.data
    .ok (head ++ formalizePath signer.derivationPath.data ++ ']' :: pubkey)
  else if walletType = .multiSig ∧ (keyPath = .externalPubkey ∨ keyPath = .internalPubkey) then
    let path := formalizePath (signer.derivationPath.data ++ keypath)
    match lib.childPubkey signer.xpub (if keyPath = .internalPubkey then 1 else 0) index with
    | some pubkey => .ok (head ++ path ++ ']' :: pubkey)
    | none => .error (.invalidBip32Path "Invalid path")
  else .ok (head ++ formalizePath signer.derivationPath.data ++ ']' :: signer.xpub.data ++ keypath)

/-- the key of a signer of a single-signature or multisig wallet on a key path that is not
`PUBKEY`: its fingerprint, path, xpub and the key path -/
theorem signerKey_xpub (lib : KeyLib) {walletType : WalletType} (hw : walletType ≠ .escrow)
    {keyPath : DescriptorPath} (hk : keyPath ≠ .externalPubkey ∧ keyPath ≠ .internalPubkey)
    (index : Int) (s : SingleSigner) :
    signerKey lib walletType keyPath index s = .ok ('[' :: s.masterFingerprint.data ++
      formalizePath s.derivationPath.data ++ ']' :: s.xpub.data ++ getKeyPath keyPath index) := by
  unfold signerKey
  rw [if_neg hw, if_neg fun h => h.2.elim hk.1 hk.2]

/-- the single-signature template: `pkh(key)`, `sh(wpkh(key))`, `wpkh(key)` or `tr(key)` -/
def singleSigDescriptor (addressType : AddressType) (key : List Char) : List Char :=
  (if addressType = .nestedSegwit then "sh(".data else []) ++
  (if addressType = .legacy then "pkh".data
    else if addressType = .taproot then "tr".data else "wpkh".data) ++
  '(' :: key ++ [')'] ++ (if addressType = .nestedSegwit then [')'] else [])

/-- the keys after the threshold, each after a comma -/
def commaKeys (keys : List (List Char)) : List Char := keys.flatMap fun k => ',' :: k

/-- the taproot multisig template with more than five keys and fewer than all required: the
first `m` keys under `musig`, all of them under `(sorted)multi_a`. `keys[i]` past the end is
undefined; the model reads no character there. -/
def multiATaprootDescriptor (keys : List (List Char)) (m : Int) (sorted : Bool) : List Char :=
  "tr(musig(".data ++ List.intercalate [','] ((List.range m.toNat).map fun i => keys.getD i []) ++
  "),".data ++ (if sorted then "sortedmulti_a(".data else "multi_a(".data) ++ (toString m).data ++
  commaKeys keys ++ "))".data

/-- the segwit and legacy multisig template: `sh(…)`, `wsh(…)` or `sh(wsh(…))` around
`(sorted)multi(m,keys)` -/
def multiDescriptor (addressType : AddressType) (keys : List (List Char)) (m : Int)
    (sorted : Bool) : List Char :=
  (if addressType = .nestedSegwit then "sh(".data else []) ++
  (if addressType = .legacy then "sh".data else "wsh".data) ++
  (if sorted then "(sortedmulti(".data else "(multi(".data) ++ (toString m).data ++
  commaKeys keys ++ "))".data ++ (if addressType = .nestedSegwit then [')'] else [])

/-- `GetDescriptorForSigners(signers, m, key_path, address_type, wallet_type, index, sorted)`:
the template of the address and wallet type over the signers' keys, then `#` and the checksum
unless the key path is `TEMPLATE`. `keys[0]` of no signer is undefined; the model reads no
character there. The taproot tree of no leaf recurses forever: `none`. -/
def getDescriptorForSigners (lib : KeyLib) (signers : List SingleSigner) (m : Int)
    (keyPath : DescriptorPath) (addressType : AddressType) (walletType : WalletType)
    (index : Int) (sorted : Bool) : Except DescriptorError (Option String) := do
  let keys ← signers.mapM (signerKey lib walletType keyPath index)
  let desc : Option (List Char) :=
    if walletType = .singleSig then some (singleSigDescriptor addressType (keys.headD []))
    else if addressType = .taproot then
      if keys.length ≤ 5 ∨ (keys.length : Int) = m then getMusigDescriptor keys m
      else some (multiATaprootDescriptor keys m sorted)
    else some (multiDescriptor addressType keys m sorted)
  pure <| desc.map fun d =>
    if keyPath = .template then String.mk d else String.mk (d ++ '#' :: lib.checksum d)

/-- the descriptor of one signer of a single-signature wallet, on a key path that is neither
`PUBKEY` nor `TEMPLATE` -/
theorem getDescriptorForSigners_singleSig (lib : KeyLib) (s : SingleSigner) (m : Int)
    {keyPath : DescriptorPath}
    (hk : keyPath ≠ .externalPubkey ∧ keyPath ≠ .internalPubkey ∧ keyPath ≠ .template)
    (addressType : AddressType) (index : Int) (sorted : Bool) :
    getDescriptorForSigners lib [s] m keyPath addressType .singleSig index sorted =
      .ok (some (String.mk (singleSigDescriptor addressType ('[' :: s.masterFingerprint.data ++
        formalizePath s.derivationPath.data ++ ']' :: s.xpub.data ++ getKeyPath keyPath index) ++
        '#' :: lib.checksum (singleSigDescriptor addressType ('[' :: s.masterFingerprint.data ++
        formalizePath s.derivationPath.data ++ ']' :: s.xpub.data ++ getKeyPath keyPath index))))) := by
  simp only [getDescriptorForSigners, List.mapM_cons, List.mapM_nil,
    signerKey_xpub lib (by decide : WalletType.singleSig ≠ .escrow) ⟨hk.1, hk.2.1⟩, if_true,
    if_neg hk.2.2]
  rfl

end Nunchuk
