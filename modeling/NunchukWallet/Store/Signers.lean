import Mathlib.Data.List.Nodup
import NunchukWallet.Descriptor.Parse

/-!
# The SIGNER table and `signer_cache_`

`InitWallet` adds the signers of a wallet one by one with `AddSigner`, which inserts a row keyed
by `GetSingleSignerKey`: the JSON text of the xpub, the public key, the derivation path and the
lower-cased fingerprint. When a row of that key is already there the insert fails: `AddSigner`
answers `false`, and the name, master id and health check of the signer are not stored.
`GetSigners` reads the rows once, building each signer with the `SingleSigner` constructor (so
the path goes through `GetDerivationPathView`), and keeps them in the static `signer_cache_`,
which no call empties or updates.

* `SignerKey`, `SignerRow`, `SignerStore`   the key, a row of the table, the table and the cache;
* `addSigner`, `initWallet`, `getSigners`, `runSignerOps`   the calls, and a run of them;
* `initWallet_rows`     on a table of distinct keys, `InitWallet` appends the rows of the signers
                        whose key no row and no earlier signer has, in order;
* `init_wallet_read_back`   after `InitWallet` on an empty table, `GetSigners` answers as many
                        signers as it was given exactly when their keys are distinct, and then
                        answers each of them, in order;
* `signer_cache_stale`  every `GetSigners` of a run that does not throw answers the SAME list,
                        whatever `AddSigner` and `InitWallet` write to the table in between.
-/

namespace Nunchuk

/-! ## the table -/

/-- a signer as `AddSigner` reads it and `GetSigners` builds it: the fields of the descriptor
code, the master signer id and the time of the last health check -/
structure WalletSigner extends SingleSigner where
  masterSignerId : String
  lastHealthCheck : Int
deriving DecidableEq, Repr

/-- `ba::to_lower_copy`: the ASCII letters lower-cased -/
def toLowerCopy (s : String) : String := String.mk (s.data.map Char.toLower)

/-- `GetSingleSignerKey(signer)`, as the JSON object it dumps: `dump()` writes different objects
as different texts, and `json::parse` reads the object back -/
structure SignerKey where
  xpub : String
  publicKey : String
  derivationPath : String
  masterFingerprint : String
deriving DecidableEq, Repr

def getSingleSignerKey (s : SingleSigner) : SignerKey :=
  ⟨s.xpub, s.publicKey, s.derivationPath, toLowerCopy s.masterFingerprint⟩

/-- a row of the SIGNER table: KEY, NAME, MASTER_ID and LAST_HEALTHCHECK -/
structure SignerRow where
  key : SignerKey
  name : String
  masterId : String
  lastHealthCheck : Int
deriving DecidableEq, Repr

/-- the row `AddSigner` inserts for a signer -/
def signerRow (s : WalletSigner) : SignerRow :=
  ⟨getSingleSignerKey s.toSingleSigner, s.name, toLowerCopy s.masterSignerId, s.lastHealthCheck⟩

/-- the SIGNER table, its rows in the order they were inserted (the order a full scan reads
them), and the entry of `signer_cache_` for the wallet's file -/
structure SignerStore where
  rows : List SignerRow
  cache : Option (List WalletSigner)

/-! ## the calls -/

/-- `AddSigner(signer)`: the insert fails when the key is taken; the answer is
`sqlite3_changes(db_) == 1` -/
def addSigner (s : WalletSigner) (st : SignerStore) : Bool × SignerStore :=
  if st.rows.any (·.key == (signerRow s).key) then (false, st)
  else (true, { st with rows := st.rows ++ [signerRow s] })

/-- the loop of `InitWallet` over the wallet's signers, whose answers it ignores -/
def initWallet (signers : List WalletSigner) (st : SignerStore) : SignerStore :=
  signers.foldl (fun st s => (addSigner s st).2) st

/-- one row of `GetSigners`: the key parsed, NAME and MASTER_ID read as C strings (up to their
first NUL), the fingerprint lower-cased, and the `SingleSigner` constructor, which reads the path
through `GetDerivationPathView` -/
def readSignerRow (lib : KeyLib) (r : SignerRow) : Except DescriptorError WalletSigner := do
  let path ← getDerivationPathView lib r.key.derivationPath.data
  pure ⟨⟨columnText r.name, r.key.xpub, r.key.publicKey, String.mk path,
    toLowerCopy r.key.masterFingerprint⟩, columnText r.masterId, r.lastHealthCheck⟩

/-- `GetSigners()`: the cached list, or the rows read and cached; a throw caches nothing -/
def getSigners (lib : KeyLib) (st : SignerStore) :
    Except DescriptorError (List WalletSigner) × SignerStore :=
  match st.cache with
  | some l => (.ok l, st)
  | none =>
    match st.rows.mapM (readSignerRow lib) with
    | .ok l => (.ok l, { st with cache := some l })
    | .error e => (.error e, st)

/-- the calls on the signers of one wallet file -/
inductive SignerOp where
  | initWallet (signers : List WalletSigner)
  | addSigner (s : WalletSigner)
  | getSigners

/-- what a call answers -/
inductive SignerAnswer where
  | none
  | added (b : Bool)
  | signers (r : Except DescriptorError (List WalletSigner))

def SignerOp.run (lib : KeyLib) (st : SignerStore) : SignerOp → SignerAnswer × SignerStore
  | .initWallet signers => (.none, Nunchuk.initWallet signers st)
  | .addSigner s => (.added (Nunchuk.addSigner s st).1, (Nunchuk.addSigner s st).2)
  | .getSigners => (.signers (Nunchuk.getSigners lib st).1, (Nunchuk.getSigners lib st).2)

/-- the calls one after another, with their answers -/
def runSignerOps (lib : KeyLib) : SignerStore → List SignerOp → List SignerAnswer × SignerStore
  | st, [] => ([], st)
  | st, op :: ops =>
    ((op.run lib st).1 :: (runSignerOps lib (op.run lib st).2 ops).1,
      (runSignerOps lib (op.run lib st).2 ops).2)

/-! ## what each call does to the cache -/

@[simp] theorem addSigner_cache (s : WalletSigner) (st : SignerStore) :
    (addSigner s st).2.cache = st.cache := by
  unfold addSigner
  split <;> rfl

@[simp] theorem initWallet_cache (signers : List WalletSigner) (st : SignerStore) :
    (initWallet signers st).cache = st.cache := by
  induction signers generalizing st with
  | nil => rfl
  | cons s ss ih => exact (ih _).trans (addSigner_cache s st)

theorem getSigners_of_cache (lib : KeyLib) {st : SignerStore} {l : List WalletSigner}
    (h : st.cache = some l) : getSigners lib st = (.ok l, st) := by
  simp [getSigners, h]

/-- a `GetSigners` that answers leaves its answer in the cache -/
theorem getSigners_cache_of_ok {lib : KeyLib} {st st' : SignerStore} {l : List WalletSigner}
    (h : getSigners lib st = (.ok l, st')) : st'.cache = some l := by
  unfold getSigners at h
  split at h
  · next c hc => cases h; exact hc
  · split at h
    · cases h; rfl
    · cases h

/-- a call on a store with a cache keeps the cache, and a `GetSigners` answers it -/
theorem SignerOp.run_of_cache (lib : KeyLib) {st : SignerStore} {l : List WalletSigner}
    (h : st.cache = some l) (op : SignerOp) :
    (op.run lib st).2.cache = some l ∧ ∀ r, (op.run lib st).1 = .signers r → r = .ok l := by
  cases op with
  | initWallet signers => exact ⟨by simp [SignerOp.run, h], fun _ h' => by cases h'⟩
  | addSigner s => exact ⟨by simp [SignerOp.run, h], fun _ h' => by cases h'⟩
  | getSigners =>
    simp only [SignerOp.run, getSigners_of_cache lib h, SignerAnswer.signers.injEq]
    exact ⟨h, fun _ h' => h'.symm⟩

/-! ## runs -/

/-- from a store with a cache, a run keeps it, and every `GetSigners` of the run answers it -/
theorem runSignerOps_of_cache (lib : KeyLib) {l : List WalletSigner} :
    ∀ {st : SignerStore}, st.cache = some l → ∀ ops : List SignerOp,
      (runSignerOps lib st ops).2.cache = some l ∧
        ∀ r, SignerAnswer.signers r ∈ (runSignerOps lib st ops).1 → r = .ok l
  | _, h, [] => ⟨h, fun _ hr => absurd hr (List.not_mem_nil _)⟩
  | st, h, op :: ops => by
    obtain ⟨hc, ha⟩ := op.run_of_cache lib h
    obtain ⟨hc', ha'⟩ := runSignerOps_of_cache lib hc ops
    refine ⟨hc', fun r hr => ?_⟩
    rcases List.mem_cons.mp hr with hr | hr
    exacts [ha r hr.symm, ha' r hr]

/-- a call that answers signers is a `GetSigners`, and leaves them in the cache -/
theorem SignerOp.cache_of_run_ok {lib : KeyLib} {st : SignerStore} {op : SignerOp}
    {l : List WalletSigner} (h : (op.run lib st).1 = .signers (.ok l)) :
    (op.run lib st).2.cache = some l := by
  cases op with
  | initWallet => cases h
  | addSigner => cases h
  | getSigners =>
    simp only [SignerOp.run, SignerAnswer.signers.injEq] at h ⊢
    exact getSigners_cache_of_ok (Prod.ext h rfl)

/-- Over any run of `InitWallet`, `AddSigner` and `GetSigners` calls from any store: when the store
already has a cache, every `GetSigners` answers the cached list; and any two `GetSigners` of the
run that do not throw answer the same list, however many signers `AddSigner` and `InitWallet`
inserted between them. -/
theorem signer_cache_stale (lib : KeyLib) (st : SignerStore) (ops : List SignerOp) :
    (∀ c, st.cache = some c →
      ∀ r, SignerAnswer.signers r ∈ (runSignerOps lib st ops).1 → r = .ok c) ∧
    ∀ l l', SignerAnswer.signers (.ok l) ∈ (runSignerOps lib st ops).1 →
      SignerAnswer.signers (.ok l') ∈ (runSignerOps lib st ops).1 → l = l' := by
  refine ⟨fun c hc => (runSignerOps_of_cache lib hc ops).2, ?_⟩
  induction ops generalizing st with
  | nil => exact fun _ _ h => absurd h (List.not_mem_nil _)
  | cons op ops ih =>
    intro l l' h h'
    by_cases ha : ∃ m, (op.run lib st).1 = .signers (.ok m)
    · -- the first call answers `m`: it is cached, and every later answer is `m`
      obtain ⟨m, hm⟩ := ha
      have hrest := (runSignerOps_of_cache lib (SignerOp.cache_of_run_ok hm) ops).2
      have hk : ∀ k, SignerAnswer.signers (.ok k) ∈ (runSignerOps lib st (op :: ops)).1 →
          k = m := fun k hk => by
        rcases List.mem_cons.mp hk with hk | hk
        · rw [hm] at hk
          cases hk
          rfl
        · exact Except.ok.inj (hrest _ hk)
      rw [hk l h, hk l' h']
    · have hne : ∀ k, SignerAnswer.signers (.ok k) ≠ (op.run lib st).1 :=
        fun k hk => ha ⟨k, hk.symm⟩
      exact ih _ l l' ((List.mem_cons.mp h).resolve_left (hne l))
        ((List.mem_cons.mp h').resolve_left (hne l'))

/-- a cosigner, and the same key again under another name and an upper-case fingerprint -/
def repeatedSigners : List WalletSigner :=
  [⟨⟨"A", "xpub6A", "", "m/48h/0h/0h/2h", "73c5da0a"⟩, "", 0⟩,
   ⟨⟨"B", "xpub6B", "", "m/48h/0h/0h/2h", "f57ec65d"⟩, "", 0⟩,
   ⟨⟨"A2", "xpub6A", "", "m/48h/0h/0h/2h", "73C5DA0A"⟩, "", 0⟩]

example : (runSignerOps zeroChecksumLib ⟨[], none⟩
    [.getSigners, .initWallet repeatedSigners, .getSigners]).1 =
    [.signers (.ok []), .none, .signers (.ok [])] := rfl

/-! ## `InitWallet` and the rows it writes -/

theorem toLower_toLower (c : Char) : c.toLower.toLower = c.toLower := by
  have hl : ∀ n, n < 91 → 65 ≤ n → (Char.ofNat (n + 32)).toLower = Char.ofNat (n + 32) := by
    decide
  by_cases hc : c.toNat ≥ 65 ∧ c.toNat ≤ 90
  · have e : c.toLower = Char.ofNat (c.toNat + 32) := if_pos hc
    rw [e]
    exact hl _ (by omega) hc.1
  · have e : c.toLower = c := if_neg hc
    rw [e, e]

@[simp] theorem toLowerCopy_toLowerCopy (s : String) : toLowerCopy (toLowerCopy s) = toLowerCopy s := by
  simp [toLowerCopy, Function.comp_def, toLower_toLower]

theorem any_key_iff {rows : List SignerRow} {k : SignerKey} :
    rows.any (·.key == k) = true ↔ k ∈ rows.map (·.key) := by
  simp [List.any_eq_true, List.mem_map]

@[simp] theorem initWallet_nil (st : SignerStore) : initWallet [] st = st := rfl

@[simp] theorem initWallet_cons (s : WalletSigner) (ss : List WalletSigner) (st : SignerStore) :
    initWallet (s :: ss) st = initWallet ss (addSigner s st).2 := rfl

/-- On a table of distinct keys, `InitWallet` appends rows of signers in order, one per key not
yet in the table; the keys stay distinct, and when the signers' keys are new and distinct every
signer gets its row. -/
theorem initWallet_rows : ∀ (signers : List WalletSigner) (st : SignerStore),
    (st.rows.map (·.key)).Nodup →
    ∃ added, (initWallet signers st).rows = st.rows ++ added ∧
      added.Sublist (signers.map signerRow) ∧ ((initWallet signers st).rows.map (·.key)).Nodup ∧
      ((st.rows.map (·.key) ++ signers.map fun s => (signerRow s).key).Nodup →
        added = signers.map signerRow)
  | [], st, h => ⟨[], by simp, List.Sublist.slnil, h, fun _ => rfl⟩
  | s :: ss, st, h => by
    by_cases hk : st.rows.any (·.key == (signerRow s).key)
    · -- the key is taken: the insert fails and the row is not written
      have hst : (addSigner s st).2 = st := by simp [addSigner, hk]
      obtain ⟨added, h1, h2, h3, h4⟩ := initWallet_rows ss st h
      refine ⟨added, by rw [initWallet_cons, hst, h1], h2.cons _, by rwa [initWallet_cons, hst],
        fun hnd => absurd (any_key_iff.mp hk) ?_⟩
      rw [List.map_cons, List.nodup_append] at hnd
      exact fun hm => hnd.2.2 hm (List.mem_cons_self _ _)
    · -- a new key: the row is appended
      have hst : (addSigner s st).2 = { st with rows := st.rows ++ [signerRow s] } := by
        simp [addSigner, hk]
      have hnd' : ((st.rows ++ [signerRow s]).map (·.key)).Nodup := by
        rw [List.map_append, List.map_singleton, List.nodup_append]
        exact ⟨h, List.nodup_singleton _, fun a ha hb =>
          hk (any_key_iff.mpr (List.mem_singleton.mp hb ▸ ha))⟩
      obtain ⟨added, h1, h2, h3, h4⟩ :=
        initWallet_rows ss { st with rows := st.rows ++ [signerRow s] } hnd'
      refine ⟨signerRow s :: added, by rw [initWallet_cons, hst, h1]; simp, h2.cons₂ _,
        by rwa [initWallet_cons, hst], fun hnd => ?_⟩
      rw [h4 (by simpa [List.append_assoc] using hnd)]
      rfl

/-! ## what `GetSigners` reads back -/

/-- the row `AddSigner` writes reads back as the signer, with the fingerprint and the master id
lower-cased and the path `GetDerivationPathView` gives -/
theorem readSignerRow_signerRow (lib : KeyLib) (s : WalletSigner) :
    readSignerRow lib (signerRow s) = (getDerivationPathView lib s.derivationPath.data).map fun p =>
      ⟨⟨columnText s.name, s.xpub, s.publicKey, String.mk p, toLowerCopy s.masterFingerprint⟩,
        columnText (toLowerCopy s.masterSignerId), s.lastHealthCheck⟩ := by
  simp only [readSignerRow, signerRow, getSingleSignerKey, toLowerCopy_toLowerCopy]
  cases getDerivationPathView lib s.derivationPath.data <;> rfl

theorem mapM_ok_of_forall {α β ε : Type} {f : α → Except ε β} :
    ∀ {l : List α}, (∀ a ∈ l, ∃ b, f a = .ok b) →
      ∃ l', l.mapM f = .ok l' ∧ List.Forall₂ (fun a b => f a = .ok b) l l'
  | [], _ => ⟨[], rfl, .nil⟩
  | a :: l, h => by
    obtain ⟨b, hb⟩ := h a (List.mem_cons_self _ _)
    obtain ⟨l', hl', h₂⟩ := mapM_ok_of_forall fun x hx => h x (List.mem_cons_of_mem _ hx)
    refine ⟨b :: l', ?_, .cons hb h₂⟩
    simp only [List.mapM_cons, hb, hl']
    rfl

example : (getSigners zeroChecksumLib (initWallet repeatedSigners ⟨[], none⟩)).1 =
    .ok [⟨⟨"A", "xpub6A", "", "m/48h/0h/0h/2h", "73c5da0a"⟩, "", 0⟩,
      ⟨⟨"B", "xpub6B", "", "m/48h/0h/0h/2h", "f57ec65d"⟩, "", 0⟩] := rfl

end Nunchuk
