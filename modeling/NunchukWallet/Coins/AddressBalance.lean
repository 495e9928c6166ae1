import NunchukWallet.Coins.View

/-!
# `GetAddressBalance` against `GetBalance`

`NunchukWalletDb::GetAddressBalance(address)` sums the coins of ONE address that are neither
SPENT, OUTGOING_PENDING_CONFIRMATION nor INCOMING_PENDING_CONFIRMATION. `GetBalance(false)` skips
the first two statuses too, but it keeps a change coin that is still
INCOMING_PENDING_CONFIRMATION. So the two readers differ by exactly the unconfirmed change.

* `getAddressBalance`, `sumAddressBalances`   the reader, and its sum over a list of addresses
                 (what a caller that walks `GetAllAddresses` adds up);
* `pendingChange`   the change coins still INCOMING_PENDING_CONFIRMATION;
* `coins_pay_wallet`   every coin of the replay pays an address of the map: both sides of the
                 replay write only outputs `IsMyAddress` accepts;
* `getBalance_eq_sum_getAddressBalance`   over a list of distinct addresses holding every address
                 of the wallet, `GetBalance(false)` is the sum of the per-address balances plus
                 the unconfirmed change.
-/

namespace Nunchuk

/-! ## the reader -/

/-- the filter of `GetAddressBalance`: a coin of `address` that is neither SPENT,
OUTGOING_PENDING_CONFIRMATION nor INCOMING_PENDING_CONFIRMATION -/
def countedByAddressBalance (address : Address) (c : UnspentOutput) : Bool :=
  !(c.status == .spent || c.status == .outgoingPendingConfirmation ||
    c.status == .incomingPendingConfirmation) && c.address == address

/-- the loop of `GetAddressBalance` over the coins -/
def sumAddressBalance (address : Address) : List UnspentOutput → Amount
  | [] => 0
  | c :: cs => (if countedByAddressBalance address c then c.amount else 0) +
      sumAddressBalance address cs

/-- `GetAddressBalance(address)` -/
def getAddressBalance (all : AddressMap) (txs : List Transaction) (address : Address) :
    Option Amount :=
  (getCoins all txs).map (sumAddressBalance address)

/-- the per-address balances of `addrs`, added up -/
def sumAddressBalances (cs : List UnspentOutput) : List Address → Amount
  | [] => 0
  | a :: as => sumAddressBalance a cs + sumAddressBalances cs as

/-- the coins `GetBalance(false)` counts and no `GetAddressBalance` does: change coins still
INCOMING_PENDING_CONFIRMATION -/
def pendingChange : List UnspentOutput → Amount
  | [] => 0
  | c :: cs => (if c.change && c.status == .incomingPendingConfirmation then c.amount else 0) +
      pendingChange cs

/-- the coins every `GetAddressBalance` of their address counts -/
def spendableAmount : List UnspentOutput → Amount
  | [] => 0
  | c :: cs => (if countedByAddressBalance c.address c then c.amount else 0) + spendableAmount cs

/-! ## sums over the addresses -/

theorem sumAddressBalances_cons (c : UnspentOutput) (cs : List UnspentOutput) :
    ∀ addrs : List Address, sumAddressBalances (c :: cs) addrs =
      sumAddressBalances [c] addrs + sumAddressBalances cs addrs
  | [] => rfl
  | a :: as => by
    simp only [sumAddressBalances, sumAddressBalance, Int.add_zero, sumAddressBalances_cons c cs as]
    ac_rfl

theorem sumAddressBalances_of_not_mem (c : UnspentOutput) :
    ∀ {addrs : List Address}, c.address ∉ addrs → sumAddressBalances [c] addrs = 0
  | [], _ => rfl
  | a :: as, h => by
    have hne : c.address ≠ a := fun he => h (he ▸ List.mem_cons_self _ _)
    simp [sumAddressBalances, sumAddressBalance, countedByAddressBalance, hne,
      sumAddressBalances_of_not_mem c (fun hm => h (List.mem_cons_of_mem _ hm))]

/-- on distinct addresses, a coin counts once: at its own address -/
theorem sumAddressBalances_singleton (c : UnspentOutput) :
    ∀ {addrs : List Address}, addrs.Nodup → c.address ∈ addrs →
      sumAddressBalances [c] addrs = spendableAmount [c]
  | a :: as, hnd, hm => by
    rw [List.nodup_cons] at hnd
    by_cases ha : c.address = a
    · subst ha
      simp [sumAddressBalances, sumAddressBalance, spendableAmount,
        sumAddressBalances_of_not_mem c hnd.1]
    · have hm' : c.address ∈ as := (List.mem_cons.mp hm).resolve_left ha
      simp [sumAddressBalances, sumAddressBalance, countedByAddressBalance, ha,
        sumAddressBalances_singleton c hnd.2 hm']

theorem sumAddressBalances_eq {addrs : List Address} (hnd : addrs.Nodup) :
    ∀ {cs : List UnspentOutput}, (∀ c ∈ cs, c.address ∈ addrs) →
      sumAddressBalances cs addrs = spendableAmount cs
  | [], _ => by
    induction addrs <;> simp_all [sumAddressBalances, sumAddressBalance, spendableAmount]
  | c :: cs, h => by
    rw [sumAddressBalances_cons, sumAddressBalances_singleton c hnd (h c (List.mem_cons_self _ _)),
      sumAddressBalances_eq hnd fun c' hc' => h c' (List.mem_cons_of_mem _ hc')]
    simp [spendableAmount]

/-- coin by coin, `GetBalance(false)` counts what `GetAddressBalance` counts and the unconfirmed
change -/
theorem sumBalance_false_eq (cs : List UnspentOutput) :
    sumBalance false cs = spendableAmount cs + pendingChange cs := by
  induction cs with
  | nil => rfl
  | cons c cs ih =>
    simp only [sumBalance, spendableAmount, pendingChange, ih]
    cases hs : c.status <;> cases hc : c.change <;>
      simp [countedByBalance, countedByAddressBalance, hs, hc] <;> ac_rfl

/-! ## the coins pay the wallet -/

/-- every coin of the replay pays an address of the map -/
theorem coins_pay_wallet {all : AddressMap} {txs : List Transaction} {coins : CoinMap}
    (h : getCoinsFromTransactions all txs = some coins) :
    ∀ c ∈ coins.values, isMyAddress all c.address = true := by
  refine getCoinsFromTransactions_induction (fun coins => ∀ c ∈ coins.values,
    isMyAddress all c.address = true) ?_ (fun _ h => absurd h (List.not_mem_nil _)) h
  intro coins k src out s hwr hc c hcm
  obtain ⟨e, he, rfl⟩ := List.mem_map.mp hcm
  rcases Dict.mem_upsertEntries he with he | ⟨-, c', -, hec⟩
  · exact hc _ (List.mem_map_of_mem _ he)
  · rw [hec]; exact hwr.2.2

/-- Over a list of distinct addresses that holds every address of the wallet, `GetBalance(false)`
is the sum of `GetAddressBalance` over the list plus the change coins still
INCOMING_PENDING_CONFIRMATION, which no `GetAddressBalance` counts. -/
theorem getBalance_eq_sum_getAddressBalance {all : AddressMap} {txs : List Transaction}
    {addrs : List Address} (hnd : addrs.Nodup) (hcov : ∀ a, isMyAddress all a = true → a ∈ addrs)
    {cs : List UnspentOutput} (h : getCoins all txs = some cs) :
    (∀ a, getAddressBalance all txs a = some (sumAddressBalance a cs)) ∧
      getBalance all false txs = some (sumAddressBalances cs addrs + pendingChange cs) := by
  obtain ⟨coins, hcoins, rfl⟩ := Option.map_eq_some'.mp h
  refine ⟨fun a => by simp [getAddressBalance, h], ?_⟩
  rw [getBalance, h, Option.map_some', sumBalance_false_eq,
    sumAddressBalances_eq hnd fun c hc => hcov _ (coins_pay_wallet hcoins c hc)]

/-- the addresses of `demoAddresses` -/
theorem mem_of_isMyAddress_demo {a : Address} (h : isMyAddress demoAddresses a = true) :
    a ∈ ["ext0", "ext1", "chg0"] := by
  simp only [isMyAddress, demoAddresses, Dict.get?, Dict.findEntry] at h
  split_ifs at h <;> simp_all

/-- the coins of `fundingTx` and the pending `spendB`: `f:0` spent by a pending spend, and its
change `b:0` to `chg0`, not yet confirmed -/
def changeSpendCoins : List UnspentOutput :=
  [{ txid := "f", vout := 0, address := "ext0", amount := 1000, height := 100, blocktime := 0,
     scheduleTime := -1, status := .outgoingPendingConfirmation, memo := "", change := false },
   { txid := "b", vout := 0, address := "chg0", amount := 800, height := 0, blocktime := 0,
     scheduleTime := -1, status := .incomingPendingConfirmation, memo := "", change := true }]

theorem getBalance_eq_sum_getAddressBalance_change :
    ["ext0", "ext1", "chg0"].Nodup ∧
    (∀ a, isMyAddress demoAddresses a = true → a ∈ ["ext0", "ext1", "chg0"]) ∧
    getCoins demoAddresses [fundingTx, spendB] = some changeSpendCoins ∧
    (∀ a, getAddressBalance demoAddresses [fundingTx, spendB] a =
      some (sumAddressBalance a changeSpendCoins)) ∧
    getBalance demoAddresses false [fundingTx, spendB] =
      some (sumAddressBalances changeSpendCoins ["ext0", "ext1", "chg0"] +
        pendingChange changeSpendCoins) :=
  ⟨by decide, fun _ => mem_of_isMyAddress_demo, rfl,
    getBalance_eq_sum_getAddressBalance (by decide) (fun _ => mem_of_isMyAddress_demo) rfl⟩

end Nunchuk
