import Mathlib.Data.List.Nodup
import NunchukWallet.Coins.Writes

/-!
# The first loop: `tx_map` and `used_by`

* `txMap_pass1`        `tx_map` gives the first transaction of the list with the txid;
* `usedBy_pass1`       `used_by` gives the txid of the last transaction of positive height
                       spending the coin (`lastConfirmedSpender`);
* `pass1_perm`         on a list with pairwise distinct txids and no coin spent by two
                       confirmed transactions, both maps are the same for every order of the list;
* `mem_txWrites_coherent`  every write of the second loop writes the output its key names, taken
                       from the transaction `tx_map` gives for the key's txid.
-/

namespace Nunchuk

/-! ## transaction lists with distinct txids and inputs in range -/

/-- pairwise distinct txids -/
def DistinctTxids (txs : List Transaction) : Prop := (txs.map (·.txid)).Nodup

/-- every input names a position inside the outputs of each transaction of the list with the
txid it names -/
def InputsInRange (txs : List Transaction) : Prop :=
  ∀ tx ∈ txs, ∀ i ∈ tx.inputs, ∀ t ∈ txs, t.txid = i.txid → i.vout < t.outputs.length

/-- no coin is spent by two transactions of positive height with different txids -/
def NoConfirmedDoubleSpend (txs : List Transaction) : Prop :=
  ∀ t₁ ∈ txs, ∀ t₂ ∈ txs, 0 < t₁.height → 0 < t₂.height →
    ∀ i₁ ∈ t₁.inputs, ∀ i₂ ∈ t₂.inputs, i₁.key = i₂.key → t₁.txid = t₂.txid

instance (txs : List Transaction) : Decidable (DistinctTxids txs) :=
  inferInstanceAs (Decidable (List.Nodup _))

instance (txs : List Transaction) : Decidable (InputsInRange txs) :=
  inferInstanceAs (Decidable (∀ tx ∈ txs, ∀ i ∈ tx.inputs, ∀ t ∈ txs,
    t.txid = i.txid → i.vout < t.outputs.length))

instance (txs : List Transaction) : Decidable (NoConfirmedDoubleSpend txs) :=
  inferInstanceAs (Decidable (∀ t₁ ∈ txs, ∀ t₂ ∈ txs, 0 < t₁.height → 0 < t₂.height →
    ∀ i₁ ∈ t₁.inputs, ∀ i₂ ∈ t₂.inputs, i₁.key = i₂.key → t₁.txid = t₂.txid))

theorem DistinctTxids.perm {txs txs' : List Transaction} (h : DistinctTxids txs)
    (hp : txs.Perm txs') : DistinctTxids txs' :=
  List.Nodup.perm h (hp.map _)

theorem DistinctTxids.inj {txs : List Transaction} (h : DistinctTxids txs) {t t' : Transaction}
    (ht : t ∈ txs) (ht' : t' ∈ txs) (he : t.txid = t'.txid) : t = t' :=
  List.inj_on_of_nodup_map h ht ht' he

theorem NoConfirmedDoubleSpend.perm {txs txs' : List Transaction}
    (h : NoConfirmedDoubleSpend txs) (hp : txs.Perm txs') : NoConfirmedDoubleSpend txs' :=
  fun t₁ h₁ t₂ h₂ => h t₁ (hp.mem_iff.mpr h₁) t₂ (hp.mem_iff.mpr h₂)

/-! ## `tx_map` -/

theorem txMap_foldl (txs : List Transaction) (p : Pass1) (id : TxId) :
    (txs.foldl pass1Step p).txMap id = (p.txMap id).or (txs.find? (·.txid == id)) := by
  induction txs generalizing p with
  | nil => simp [Option.or_none]
  | cons t ts ih =>
    rw [List.foldl_cons, ih]
    by_cases he : t.txid = id
    · subst he
      cases h : p.txMap t.txid <;> simp [pass1Step, h]
    · have : (pass1Step p t).txMap id = p.txMap id := by
        unfold pass1Step; split <;> simp [Function.update_noteq (Ne.symm he)]
      simp [this, he]

theorem txMap_pass1 (txs : List Transaction) (id : TxId) :
    (pass1 txs).txMap id = txs.find? (·.txid == id) := by
  simp [pass1, txMap_foldl, Pass1.init]

theorem txMap_pass1_eq_some {txs : List Transaction} (hd : DistinctTxids txs) {id : TxId}
    {t : Transaction} : (pass1 txs).txMap id = some t ↔ t ∈ txs ∧ t.txid = id := by
  rw [txMap_pass1]
  constructor
  · intro h; exact ⟨List.mem_of_find?_eq_some h, by simpa using List.find?_some h⟩
  · rintro ⟨ht, rfl⟩
    have hs : (txs.find? (·.txid == t.txid)).isSome := List.find?_isSome.mpr ⟨t, ht, by simp⟩
    obtain ⟨t', h'⟩ := Option.isSome_iff_exists.mp hs
    have he : t'.txid = t.txid := by simpa using List.find?_some h'
    rw [h', hd.inj (List.mem_of_find?_eq_some h') ht he]

theorem txMap_pass1_self {txs : List Transaction} (hd : DistinctTxids txs) {t : Transaction}
    (ht : t ∈ txs) : (pass1 txs).txMap t.txid = some t :=
  (txMap_pass1_eq_some hd).mpr ⟨ht, rfl⟩

/-! ## `used_by` -/

/-- `t` has a positive height and spends the coin `k` -/
def confirmedSpender (k : CoinKey) (t : Transaction) : Bool :=
  0 < t.height && t.inputs.any (·.key == k)

/-- the txid of the last transaction of a list that has a positive height and spends `k` -/
def lastConfirmedSpender (k : CoinKey) : List Transaction → Option TxId
  | [] => none
  | t :: ts => (lastConfirmedSpender k ts).or (if confirmedSpender k t then some t.txid else none)

theorem markUsed_apply (x : TxId) (u : CoinKey → Option TxId) (is : List TxInput) (k : CoinKey) :
    markUsed x u is k = if is.any (·.key == k) then some x else u k := by
  induction is generalizing u with
  | nil => rfl
  | cons i is ih =>
    rw [markUsed, ih]
    by_cases h : i.key = k
    · subst h; simp
    · simp [Function.update_noteq (Ne.symm h), h]

theorem usedBy_foldl (txs : List Transaction) (p : Pass1) (k : CoinKey) :
    (txs.foldl pass1Step p).usedBy k = (lastConfirmedSpender k txs).or (p.usedBy k) := by
  induction txs generalizing p with
  | nil => rfl
  | cons t ts ih =>
    have : (pass1Step p t).usedBy k =
        (if confirmedSpender k t then some t.txid else none).or (p.usedBy k) := by
      unfold pass1Step confirmedSpender
      by_cases hh : t.height ≤ 0
      · simp [hh, not_lt.mpr hh]
      · have hpos : 0 < t.height := by omega
        by_cases hi : t.inputs.any (·.key == k) <;> simp [hh, hpos, markUsed_apply, hi]
    rw [List.foldl_cons, ih, this, lastConfirmedSpender, Option.or_assoc]

theorem usedBy_pass1 (txs : List Transaction) (k : CoinKey) :
    (pass1 txs).usedBy k = lastConfirmedSpender k txs := by
  simp [pass1, usedBy_foldl, Pass1.init, Option.or_none]

theorem lastConfirmedSpender_spec (k : CoinKey) (txs : List Transaction) :
    (∀ x, lastConfirmedSpender k txs = some x → ∃ t ∈ txs, confirmedSpender k t ∧ t.txid = x) ∧
    ((∃ t ∈ txs, confirmedSpender k t) → (lastConfirmedSpender k txs).isSome) := by
  induction txs with
  | nil => simp [lastConfirmedSpender]
  | cons t ts ih =>
    obtain ⟨ih₁, ih₂⟩ := ih
    refine ⟨fun x hx => ?_, fun ⟨t', ht', hs⟩ => ?_⟩
    · cases h : lastConfirmedSpender k ts with
      | some y =>
        obtain ⟨t', ht', hs, rfl⟩ := ih₁ y h
        rw [lastConfirmedSpender, h] at hx
        cases hx
        exact ⟨t', List.mem_cons_of_mem _ ht', hs, rfl⟩
      | none =>
        rw [lastConfirmedSpender, h, Option.none_or] at hx
        split at hx
        · cases hx; exact ⟨t, List.mem_cons_self _ _, ‹_›, rfl⟩
        · cases hx
    · rcases List.mem_cons.mp ht' with rfl | ht'
      · cases lastConfirmedSpender k ts <;> simp [lastConfirmedSpender, hs, *]
      · obtain ⟨y, hy⟩ := Option.isSome_iff_exists.mp (ih₂ ⟨t', ht', hs⟩)
        simp [lastConfirmedSpender, hy]

theorem NoConfirmedDoubleSpend.txid_eq {txs : List Transaction} (h : NoConfirmedDoubleSpend txs)
    {k : CoinKey} {t₁ t₂ : Transaction} (h₁ : t₁ ∈ txs) (h₂ : t₂ ∈ txs)
    (hs₁ : confirmedSpender k t₁) (hs₂ : confirmedSpender k t₂) : t₁.txid = t₂.txid := by
  simp only [confirmedSpender, Bool.and_eq_true, decide_eq_true_eq, List.any_eq_true,
    beq_iff_eq] at hs₁ hs₂
  obtain ⟨hh₁, i₁, hi₁, rfl⟩ := hs₁
  obtain ⟨hh₂, i₂, hi₂, he⟩ := hs₂
  exact h t₁ h₁ t₂ h₂ hh₁ hh₂ i₁ hi₁ i₂ hi₂ he.symm

theorem usedBy_pass1_eq_some {txs : List Transaction} (hc : NoConfirmedDoubleSpend txs)
    {k : CoinKey} {x : TxId} :
    (pass1 txs).usedBy k = some x ↔ ∃ t ∈ txs, confirmedSpender k t ∧ t.txid = x := by
  rw [usedBy_pass1]
  obtain ⟨h₁, h₂⟩ := lastConfirmedSpender_spec k txs
  refine ⟨h₁ x, fun ⟨t, ht, hs, hx⟩ => ?_⟩
  obtain ⟨y, hy⟩ := Option.isSome_iff_exists.mp (h₂ ⟨t, ht, hs⟩)
  obtain ⟨t', ht', hs', rfl⟩ := h₁ y hy
  rw [hy, ← hx, hc.txid_eq ht' ht hs' hs]

theorem pass1_perm {txs txs' : List Transaction} (hp : txs.Perm txs') (hd : DistinctTxids txs)
    (hc : NoConfirmedDoubleSpend txs) : pass1 txs = pass1 txs' := by
  have h₁ : (pass1 txs).txMap = (pass1 txs').txMap := funext fun id => Option.ext fun t => by
    simp only [Option.mem_def]
    rw [txMap_pass1_eq_some hd, txMap_pass1_eq_some (hd.perm hp), hp.mem_iff]
  have h₂ : (pass1 txs).usedBy = (pass1 txs').usedBy := funext fun k => Option.ext fun x => by
    simp only [Option.mem_def]
    rw [usedBy_pass1_eq_some hc, usedBy_pass1_eq_some (hc.perm hp)]
    simp only [hp.mem_iff]
  cases h : pass1 txs
  cases h' : pass1 txs'
  simp_all

/-! ## coherence of the writes -/

section
variable (all : AddressMap) (p : Pass1)

/-- the write takes its source from `tx_map` and its output from the position its key names -/
def CoinWrite.Coherent (w : CoinWrite) : Prop :=
  p.txMap w.key.1 = some w.src ∧ w.src.outputs[w.key.2]? = some w.out

theorem inputWrite_coherent {tx : Transaction} {i : TxInput} {w : CoinWrite}
    (h : inputWrite all p tx i = some w) : w.Coherent p := by
  unfold inputWrite at h
  split at h
  · cases h
  · split at h
    · cases h
    · split at h
      · cases h; exact ⟨‹_›, ‹_›⟩
      · cases h

theorem mem_outputWrites {tx : Transaction} {v : Nat} {outs : List TxOutput} {w : CoinWrite}
    (h : w ∈ outputWrites all tx v outs) :
    w.src = tx ∧ w.key.1 = tx.txid ∧ ∃ j, w.key.2 = v + j ∧ outs[j]? = some w.out := by
  induction outs generalizing v with
  | nil => cases h
  | cons out outs ih =>
    simp only [outputWrites, List.mem_append] at h
    rcases h with h | h
    · split at h
      · simp only [List.mem_singleton] at h; subst h
        exact ⟨rfl, rfl, 0, rfl, by simp⟩
      · cases h
    · obtain ⟨h₁, h₂, j, h₃, h₄⟩ := ih h
      exact ⟨h₁, h₂, j + 1, by omega, by simpa using h₄⟩

theorem mem_txWrites_coherent {txs : List Transaction} (hd : DistinctTxids txs) {w : CoinWrite}
    (hw : w ∈ txs.flatMap (txWrites all (pass1 txs))) : w.Coherent (pass1 txs) := by
  obtain ⟨tx, htx, hw⟩ := List.mem_flatMap.mp hw
  unfold txWrites at hw
  split at hw
  · rcases List.mem_append.mp hw with hw | hw
    · obtain ⟨i, -, hi⟩ := List.mem_filterMap.mp hw
      exact inputWrite_coherent all _ hi
    · obtain ⟨rfl, hk, j, hj, ho⟩ := mem_outputWrites all hw
      refine ⟨by rw [hk]; exact txMap_pass1_self hd htx, ?_⟩
      rw [hj, Nat.zero_add]; exact ho
  · cases hw

theorem CoinWrite.Coherent.agree {w₁ w₂ : CoinWrite} (h₁ : w₁.Coherent p) (h₂ : w₂.Coherent p)
    (hk : w₁.key = w₂.key) : w₁.src = w₂.src ∧ w₁.out = w₂.out := by
  obtain ⟨a₁, b₁⟩ := h₁
  obtain ⟨a₂, b₂⟩ := h₂
  rw [hk, a₂, Option.some.injEq] at a₁
  rw [hk, ← a₁, b₂, Option.some.injEq] at b₁
  exact ⟨a₁.symm, b₁.symm⟩

end

end Nunchuk
