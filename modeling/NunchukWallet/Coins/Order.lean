import NunchukWallet.Coins.FirstLoop

/-!
# The coin view does not depend on the order of the transactions

`getCoinsFromTransactions_perm`: on a list with pairwise distinct txids, inputs inside the
outputs they name and no coin spent by two confirmed transactions, every permutation of the
list gives the same coin map, every coin with the same fields and status.

The proof follows the writes of the replay (`Writes`): the first loop is the same for every
order (`pass1_perm`), so the second loop performs the same writes in another order; every write
takes its fields from the output its key names (`mem_txWrites_coherent`), so two writes to one
coin only differ in the status they raise, and writes commute (`applyFn_comm`).
-/

namespace Nunchuk

section
variable (all : AddressMap)

theorem InputsInRange.pass1 {txs : List Transaction} (hd : DistinctTxids txs)
    (hr : InputsInRange txs) : ∀ tx ∈ txs, ∀ i ∈ tx.inputs, (pass1 txs).InRange i :=
  fun tx htx i hi prev hp => by
    obtain ⟨hprev, he⟩ := (txMap_pass1_eq_some hd).mp hp
    exact hr tx htx i hi prev hprev he

/-- on distinct txids whose inputs read existing outputs, the second loop is the list of writes of
its rounds -/
theorem getCoinsFromTransactions_eq {txs : List Transaction} (hd : DistinctTxids txs)
    (hr : InputsInRange txs) :
    getCoinsFromTransactions all txs =
      some (applyWrites all Dict.empty (txs.flatMap (txWrites all (pass1 txs)))) :=
  foldlM_replayTx_eq all _ txs _ (hr.pass1 hd)

theorem getCoinsFromTransactions_perm {txs txs' : List Transaction} (hp : txs.Perm txs')
    (hd : DistinctTxids txs) (hr : InputsInRange txs) (hc : NoConfirmedDoubleSpend txs) :
    ∃ m m', getCoinsFromTransactions all txs = some m ∧
      getCoinsFromTransactions all txs' = some m' ∧ ∀ k, m.get? k = m'.get? k := by
  have hr' : InputsInRange txs' := fun tx htx i hi t ht =>
    hr tx (hp.mem_iff.mpr htx) i hi t (hp.mem_iff.mpr ht)
  refine ⟨_, _, getCoinsFromTransactions_eq all hd hr,
    getCoinsFromTransactions_eq all (hd.perm hp) hr', fun k => ?_⟩
  rw [get?_applyWrites, get?_applyWrites, ← pass1_perm hp hd hc]
  refine congrFun ((hp.flatMap_right _).foldl_eq' (fun w₁ h₁ w₂ h₂ g => ?_) _) k
  exact applyFn_comm all g w₁ w₂
    ((mem_txWrites_coherent all hd h₁).agree _ (mem_txWrites_coherent all hd h₂))

end

theorem getCoinsFromTransactions_swap :
    [fundingTx, spendA].Perm [spendA, fundingTx] ∧
    ∃ m m', getCoinsFromTransactions demoAddresses [fundingTx, spendA] = some m ∧
      getCoinsFromTransactions demoAddresses [spendA, fundingTx] = some m' ∧
      ∀ k, m.get? k = m'.get? k :=
  ⟨List.Perm.swap _ _ _,
    getCoinsFromTransactions_perm _ (List.Perm.swap _ _ _) (by decide) (by decide) (by decide)⟩

end Nunchuk
