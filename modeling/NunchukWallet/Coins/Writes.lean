import NunchukWallet.Coins.Replay

/-!
# The replay as a list of coin writes

Every round of the second loop of `GetCoinsFromTransactions` is a list of `CoinWrite`s, each
a `coins[k]` followed by the writes of `writeCoin`.

* `replayTx_eq`        a round whose inputs read inside the outputs they name is `applyWrites`
                       of its `txWrites`;
* `foldlM_replayTx_eq` so is the whole second loop, with the writes of the rounds in order;
* `get?_applyWrites`   seen through lookups, the writes act on the functional map (`applyFn`);
* `applyFn_comm`       two writes that agree on the output they write commute;
* `status_le_foldl`    the status a write gives is a lower bound of the final status of its coin.
-/

namespace Nunchuk

/-- one write of the replay to the coin `key`, the output `out` of `src`, raising by `status` -/
structure CoinWrite where
  key : CoinKey
  src : Transaction
  out : TxOutput
  status : Option CoinStatus

/-- a coin map seen through its lookups -/
abbrev CoinFn := CoinKey → Option UnspentOutput

/-! ## statuses -/

theorem raiseStatus_toNat (c s : CoinStatus) : (raiseStatus c s).toNat = max c.toNat s.toNat := by
  unfold raiseStatus; split <;> omega

theorem le_raiseStatusBy (s : Option CoinStatus) (c : CoinStatus) :
    c.toNat ≤ (raiseStatusBy s c).toNat := by
  cases s with
  | none => exact le_rfl
  | some s => rw [raiseStatusBy, raiseStatus_toNat]; exact le_max_left _ _

theorem raiseStatusBy_comm (a b : Option CoinStatus) (c : CoinStatus) :
    raiseStatusBy a (raiseStatusBy b c) = raiseStatusBy b (raiseStatusBy a c) := by
  cases a <;> cases b <;> simp only [raiseStatusBy]
  apply CoinStatus.toNat_injective
  simp only [raiseStatus_toNat]
  omega

section
variable (all : AddressMap)

theorem writeCoin_comm (k : CoinKey) (src : Transaction) (out : TxOutput)
    (s₁ s₂ : Option CoinStatus) (c : UnspentOutput) :
    writeCoin all k src out s₁ (writeCoin all k src out s₂ c) =
      writeCoin all k src out s₂ (writeCoin all k src out s₁ c) := by
  simp [writeCoin, raiseStatusBy_comm]

/-! ## writes on the map and on its lookups -/

def CoinWrite.apply (coins : CoinMap) (w : CoinWrite) : CoinMap :=
  coins.upsert w.key .empty (writeCoin all w.key w.src w.out w.status)

def applyWrites (coins : CoinMap) (ws : List CoinWrite) : CoinMap :=
  ws.foldl (CoinWrite.apply all) coins

@[simp] theorem applyWrites_nil (coins : CoinMap) : applyWrites all coins [] = coins := rfl

@[simp] theorem applyWrites_cons (coins : CoinMap) (w : CoinWrite) (ws : List CoinWrite) :
    applyWrites all coins (w :: ws) = applyWrites all (w.apply all coins) ws := rfl

@[simp] theorem applyWrites_append (coins : CoinMap) (ws ws' : List CoinWrite) :
    applyWrites all coins (ws ++ ws') = applyWrites all (applyWrites all coins ws) ws' :=
  List.foldl_append _ _ _ _

def CoinWrite.applyFn (g : CoinFn) (w : CoinWrite) : CoinFn :=
  Function.update g w.key
    (some (writeCoin all w.key w.src w.out w.status ((g w.key).getD .empty)))

theorem get?_apply (coins : CoinMap) (w : CoinWrite) :
    (w.apply all coins).get? = w.applyFn all coins.get? := by
  funext k
  by_cases h : w.key = k
  · subst h; simp [CoinWrite.apply, CoinWrite.applyFn]
  · simp [CoinWrite.apply, CoinWrite.applyFn, h, Function.update_noteq (Ne.symm h)]

theorem get?_applyWrites (coins : CoinMap) (ws : List CoinWrite) :
    (applyWrites all coins ws).get? = ws.foldl (CoinWrite.applyFn all) coins.get? := by
  induction ws generalizing coins with
  | nil => rfl
  | cons w ws ih => rw [applyWrites_cons, ih, get?_apply]; rfl

/-- writes to different coins, or to one coin from the same output, commute -/
theorem applyFn_comm (g : CoinFn) (w₁ w₂ : CoinWrite)
    (h : w₁.key = w₂.key → w₁.src = w₂.src ∧ w₁.out = w₂.out) :
    w₂.applyFn all (w₁.applyFn all g) = w₁.applyFn all (w₂.applyFn all g) := by
  obtain ⟨k₁, src₁, out₁, s₁⟩ := w₁
  obtain ⟨k₂, src₂, out₂, s₂⟩ := w₂
  by_cases hk : k₁ = k₂
  · obtain ⟨rfl, rfl⟩ := h hk
    subst hk
    simp [CoinWrite.applyFn, Function.update_idem, writeCoin_comm]
  · simp [CoinWrite.applyFn, Function.update_noteq hk, Function.update_noteq (Ne.symm hk),
      Function.update_comm hk]

/-- the coin of `k` keeps existing and its status never falls -/
theorem status_mono_foldl (ws : List CoinWrite) (g : CoinFn) (k : CoinKey) (c : UnspentOutput)
    (hc : g k = some c) :
    ∃ c', ws.foldl (CoinWrite.applyFn all) g k = some c' ∧ c.status.toNat ≤ c'.status.toNat := by
  induction ws generalizing g c with
  | nil => exact ⟨c, hc, le_rfl⟩
  | cons w ws ih =>
    by_cases hk : w.key = k
    · subst hk
      obtain ⟨c', h1, h2⟩ := ih _ _ (Function.update_same _ _ _)
      refine ⟨c', h1, le_trans ?_ h2⟩
      simpa [writeCoin, hc] using le_raiseStatusBy w.status c.status
    · exact ih _ c (by rw [CoinWrite.applyFn, Function.update_noteq (Ne.symm hk), hc])

/-- after `ws`, the coin of each of its writes exists, with at least the status it gave -/
theorem status_le_foldl (ws : List CoinWrite) (g : CoinFn) (w : CoinWrite) (hw : w ∈ ws)
    (s : CoinStatus) (hs : w.status = some s) :
    ∃ c, ws.foldl (CoinWrite.applyFn all) g w.key = some c ∧ s.toNat ≤ c.status.toNat := by
  induction ws generalizing g with
  | nil => cases hw
  | cons w' ws ih =>
    rcases List.mem_cons.mp hw with rfl | hw
    · obtain ⟨c', h1, h2⟩ := status_mono_foldl all ws _ w.key _ (Function.update_same _ _ _)
      refine ⟨c', h1, le_trans ?_ h2⟩
      simp only [writeCoin, hs, raiseStatusBy, raiseStatus_toNat]
      exact le_max_right _ _
    · exact ih _ hw

/-- a coin exists only under a key that some write of `ws` names -/
theorem exists_write_of_foldl {ws : List CoinWrite} {g : CoinFn} {k : CoinKey}
    {c : UnspentOutput} (h : ws.foldl (CoinWrite.applyFn all) g k = some c) :
    g k = some c ∨ ∃ w ∈ ws, w.key = k := by
  induction ws generalizing g with
  | nil => exact .inl h
  | cons w ws ih =>
    rcases ih h with h | ⟨w', hw', hk⟩
    · by_cases hk : w.key = k
      · exact .inr ⟨w, List.mem_cons_self _ _, hk⟩
      · exact .inl (by rwa [CoinWrite.applyFn, Function.update_noteq (Ne.symm hk)] at h)
    · exact .inr ⟨w', List.mem_cons_of_mem _ hw', hk⟩

/-! ## the coin map keeps every coin under its own key -/

/-- each key once, and every coin under the key of its txid and vout -/
def wellKeyed (m : CoinMap) : Prop :=
  (m.entries.map Prod.fst).Nodup ∧ ∀ e ∈ m.entries, coinId e.2.txid e.2.vout = e.1

theorem wellKeyed_empty : wellKeyed Dict.empty := ⟨List.nodup_nil, fun _ h => by cases h⟩

theorem wellKeyed_apply {m : CoinMap} (h : wellKeyed m) (w : CoinWrite) :
    wellKeyed (w.apply all m) := by
  refine ⟨Dict.nodup_upsertEntries _ _ _ h.1, fun e he => ?_⟩
  rcases Dict.mem_upsertEntries he with he | ⟨hk, v, -, hv⟩
  · exact h.2 e he
  · rw [hv, hk]; rfl

theorem wellKeyed_applyWrites {m : CoinMap} (h : wellKeyed m) (ws : List CoinWrite) :
    wellKeyed (applyWrites all m ws) := by
  induction ws generalizing m with
  | nil => exact h
  | cons w ws ih => exact ih (wellKeyed_apply all h w)

theorem get?_of_mem_values {m : CoinMap} (h : wellKeyed m) {c : UnspentOutput}
    (hc : c ∈ m.values) : m.get? (coinId c.txid c.vout) = some c := by
  obtain ⟨e, he, rfl⟩ := List.mem_map.mp hc
  rw [h.2 e he]
  exact Dict.findEntry_of_mem h.1 he

/-! ## the rounds as writes -/

variable (p : Pass1)

/-- the write of the input side for the input `i` of `tx`, if any -/
def inputWrite (tx : Transaction) (i : TxInput) : Option CoinWrite :=
  match p.txMap i.txid with
  | none => none
  | some prev =>
    match prev.outputs[i.vout]? with
    | none => none
    | some out =>
      if isMyAddress all out.address then some ⟨i.key, prev, out, spendStatus tx.status⟩
      else none

/-- the writes of the output side of `tx`, from position `vout` -/
def outputWrites (tx : Transaction) : Nat → List TxOutput → List CoinWrite
  | _, [] => []
  | vout, out :: outs =>
    (if isMyAddress all out.address then
      [⟨coinId tx.txid vout, tx, out, some (receiveStatus tx)⟩] else []) ++
    outputWrites tx (vout + 1) outs

/-- the writes of one round -/
def txWrites (tx : Transaction) : List CoinWrite :=
  if replayed p tx then
    tx.inputs.filterMap (inputWrite all p tx) ++ outputWrites all tx 0 tx.outputs
  else []

/-- the input `i` reads inside the outputs of the transaction `tx_map` gives it -/
def Pass1.InRange (i : TxInput) : Prop :=
  ∀ prev, p.txMap i.txid = some prev → i.vout < prev.outputs.length

theorem spendInputs_eq (tx : Transaction) (coins : CoinMap) (is : List TxInput)
    (h : ∀ i ∈ is, p.InRange i) :
    spendInputs all p tx coins is =
      some (applyWrites all coins (is.filterMap (inputWrite all p tx))) := by
  induction is generalizing coins with
  | nil => rfl
  | cons i is ih =>
    have hs : ∀ j ∈ is, p.InRange j := fun j hj => h j (List.mem_cons_of_mem i hj)
    cases hp : p.txMap i.txid with
    | none => simp [spendInputs, inputWrite, hp, ih coins hs]
    | some prev =>
      have hlt := h i (List.mem_cons_self i is) prev hp
      have ho := List.getElem?_eq_getElem hlt
      by_cases hm : isMyAddress all prev.outputs[i.vout].address
      · simp [spendInputs, inputWrite, hp, ho, hm, ih _ hs, CoinWrite.apply]
      · simp [spendInputs, inputWrite, hp, ho, hm, ih coins hs]

theorem receiveOutputs_eq (tx : Transaction) (vout : Nat) (outs : List TxOutput)
    (coins : CoinMap) :
    receiveOutputs all tx vout outs coins =
      applyWrites all coins (outputWrites all tx vout outs) := by
  induction outs generalizing vout coins with
  | nil => rfl
  | cons out outs ih =>
    by_cases hm : isMyAddress all out.address
    · simp [receiveOutputs, outputWrites, hm, ih, CoinWrite.apply]
    · simp [receiveOutputs, outputWrites, hm, ih]

theorem replayTx_eq (coins : CoinMap) (tx : Transaction) (h : ∀ i ∈ tx.inputs, p.InRange i) :
    replayTx all p coins tx = some (applyWrites all coins (txWrites all p tx)) := by
  unfold replayTx txWrites
  split
  · simp [spendInputs_eq all p tx coins tx.inputs h, receiveOutputs_eq]
  · rfl

theorem foldlM_replayTx_eq (txs : List Transaction) (coins : CoinMap)
    (h : ∀ tx ∈ txs, ∀ i ∈ tx.inputs, p.InRange i) :
    txs.foldlM (replayTx all p) coins =
      some (applyWrites all coins (txs.flatMap (txWrites all p))) := by
  induction txs generalizing coins with
  | nil => rfl
  | cons tx txs ih =>
    rw [List.foldlM_cons, replayTx_eq all p coins tx (h tx (List.mem_cons_self _ _))]
    simp [ih _ fun t ht => h t (List.mem_cons_of_mem _ ht)]

end

end Nunchuk
