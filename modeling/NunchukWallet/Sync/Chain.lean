import NunchukWallet.Sync.Update

/-!
# `BlockchainSync`: the two subscription strategies

For each wallet `BlockchainSync` subscribes every address `GetAllAddresses` lists. With batched
requests it subscribes them all at once, keeps the scripthashes whose status changed to a non-empty
one, and hands them to `UpdateScripthashesStatus`, which fetches the histories and the raw
transactions of all of them in one go and runs `UpdateTransactions` per scripthash on the union.
Without, it walks the addresses in reverse order and runs `UpdateScripthashStatus`, and with it
`UpdateTransactions` on that one history, for each address whose status changed. Each
`UpdateTransactions` evicts the pending receive transactions it does not hold for current: the
union of the raw transactions in the first case, one history in the second.

* `updateScripthashStatus`, `updateScripthashesStatus`, `syncWallet`;
* `sequential_sync_evicts_other_address`   two addresses, each paid by a pending transaction: the
  batch strategy stores both, the sequential one deletes the first it stored when it processes the
  second address; both store the same address statuses.
-/

namespace Nunchuk

/-- `operator<` of `std::string` on the characters: lexicographic on their codes -/
def charsLt : List Char → List Char → Bool
  | _, [] => false
  | [], _ :: _ => true
  | c :: cs, d :: ds => c.toNat < d.toNat || (c.toNat == d.toNat && charsLt cs ds)

/-- the keys of a `std::map<std::string, _>`: insertion into a sorted list without repeats -/
def insertSorted (a : String) : List String → List String
  | [] => [a]
  | x :: xs =>
    if charsLt a.data x.data then a :: x :: xs
    else if a = x then x :: xs else x :: insertSorted a xs

/-- the keys of a `std::map<std::string, _>` in iteration order -/
def sortedKeys {V : Type} (m : Dict String V) : List String :=
  (m.entries.map (·.1)).foldr insertSorted []

theorem mem_insertSorted {a x : String} {l : List String} :
    x ∈ insertSorted a l ↔ x = a ∨ x ∈ l := by
  induction l with
  | nil => simp [insertSorted]
  | cons y l ih =>
    unfold insertSorted
    split
    · simp
    · split
      · next h => subst h; simp
      · simp [ih, or_left_comm]

theorem mem_foldr_insertSorted {x : String} {l : List String} :
    x ∈ l.foldr insertSorted [] ↔ x ∈ l := by
  induction l with
  | nil => rfl
  | cons a l ih => simp [mem_insertSorted, ih]

section
variable (w : WalletDescriptor) (m : Nat) (b : Backend) (ready : Bool)

/-- `SetUtxos(chain, wallet_id, address, "null|" + status)`: the listunspent request is commented
out, so the first field is the dump of a null json -/
def storeStatus (address : Address) (status : String) : SyncM Unit :=
  modify fun wd => { wd with store := (setUtxos w address ("null|" ++ status) wd.store).2 }

/-- `UpdateScripthashStatus`: a non-empty status of a subscribed scripthash fetches its history;
when `UpdateTransactions` reports the pass synced, the status is stored -/
def updateScripthashStatus (sh status : String) : SyncM Unit := do
  if status.isEmpty then return
  match (← get).subscribed.get? sh with
  | none => return
  | some address =>
    if ← liftTx w (updateTransactions m b ready · (b.history sh)) then
      storeStatus w address status

/-- the first loop of `UpdateScripthashesStatus`: the ids of all histories not stored as
CONFIRMED, scripthash by scripthash in key order -/
def multiScan (s : WalletStore) (histories : List (List HistoryItem)) : List TxId :=
  histories.flatMap fun h =>
    (h.filter fun item => storedStatus m s.vtx item.txHash ≠ some .confirmed).map (·.txHash)

/-- the second loop of `UpdateScripthashesStatus`: `UpdateTransactions` on each history with the
union of the raw transactions, then the status when synced -/
def multiUpdate (rawtx : Dict TxId Payload) (statusOf : String → String) :
    List String → SyncM Unit
  | [] => pure ()
  | sh :: shs => do
    match (← get).subscribed.get? sh with
    | none => multiUpdate rawtx statusOf shs
    | some address =>
      if ← liftTx w (updateTransactionsPrefetched m b ready · (b.history sh) rawtx) then
        storeStatus w address (statusOf sh)
      multiUpdate rawtx statusOf shs

/-- `UpdateScripthashesStatus(chain, scripthashes, status)` -/
def updateScripthashesStatus (shs : List String) (statuses : List String) : SyncM Unit := do
  if shs.isEmpty then return
  let histories := (shs.foldr insertSorted []).map b.history
  let rawtx := b.multiRawtx (multiScan m (← get).store histories)
  let statusOf := fun sh => (((shs.zip statuses).find? (·.1 = sh)).map (·.2)).getD ""
  multiUpdate w m b ready rawtx statusOf shs

/-- `SubscribeAddress`: the scripthash is recorded for the wallet, the status answered -/
def subscribeAddress (address : Address) : SyncM (String × String) := do
  let sh := b.scripthash address
  modify fun wd => { wd with subscribed := wd.subscribed.set sh address }
  pure (sh, b.status sh)

/-- `SubscribeAddresses`: every scripthash recorded for the wallet; the answer of
`subscribe_multi_scripthash`, in scripthash order -/
def subscribeAddresses (addresses : List Address) : SyncM (List (String × String)) := do
  modify fun wd =>
    { wd with subscribed := addresses.foldl (fun m a => m.set (b.scripthash a) a) wd.subscribed }
  pure (((addresses.map b.scripthash).foldr insertSorted []).map fun sh => (sh, b.status sh))

/-- the diff of the batch strategy over the subscriptions in scripthash order: the scripthashes
whose status changed to a non-empty one, with their status -/
def batchDiff (s : WalletStore) (subscribed : Dict String Address) :
    List (String × String) → List String × List String
  | [] => ([], [])
  | (sh, status) :: subs =>
    let (shs, sts) := batchDiff s subscribed subs
    let prev := getAddressStatus s.address ((subscribed.get? sh).getD "")
    if status ≠ prev ∧ !status.isEmpty then (sh :: shs, status :: sts) else (shs, sts)

/-- the sequential strategy: one address at a time, in the order given -/
def sequentialSync : List Address → SyncM Unit
  | [] => pure ()
  | address :: addresses => do
    let (sh, status) ← subscribeAddress b address
    if status ≠ getAddressStatus (← get).store.address address then
      updateScripthashStatus w m b ready sh status
    sequentialSync addresses

/-- the address part of `BlockchainSync` for one wallet -/
def syncWallet : SyncM Unit := do
  let (all, store) := getAllAddressData w (← get).store
  modify fun wd => { wd with store := store }
  let addresses := sortedKeys all
  if b.batch then
    let subs ← subscribeAddresses b addresses
    let wd ← get
    let (shs, sts) := batchDiff wd.store wd.subscribed subs
    updateScripthashesStatus w m b ready shs sts
  else
    sequentialSync w m b ready addresses.reverse

end

/-! ## the two strategies on one store -/

/-- a pending transaction paying `r0`, and one paying `r1` -/
def payR0 : TxData := { txid := "T0", inputs := [⟨"F", 0⟩], outputs := [⟨"r0", 1000⟩] }
def payR1 : TxData := { txid := "T1", inputs := [⟨"F", 1⟩], outputs := [⟨"r1", 2000⟩] }

/-- a server where `r0` and `r1` each have one pending transaction -/
def twoPaymentsBackend (batch : Bool) : Backend where
  batch := batch
  multiRawtx ids := ⟨(ids.filter (· ∈ ["T0", "T1"])).map fun id =>
    (id, .rawTx (if id = "T0" then payR0 else payR1))⟩
  transactionGet id :=
    if id = "T0" then some (.rawTx payR0) else if id = "T1" then some (.rawTx payR1) else none
  blockTime _ := 0
  scripthash a := a
  status sh := if sh = "r0" then "s0" else if sh = "r1" then "s1" else ""
  history sh :=
    if sh = "r0" then [⟨"T0", 0, none⟩] else if sh = "r1" then [⟨"T1", 0, none⟩] else []


/-- the world after one pass with batched requests (`true`) or without -/
def afterTwoPayments (batch : Bool) : SyncWorld :=
  (syncWallet demoDescriptor 1 (twoPaymentsBackend batch) true |>.run emptyWorld).2

set_option maxRecDepth 100000 in
/-- with batched requests both payments are stored; walking the addresses one by one, `r1` is
processed before `r0` and its payment is evicted by the update of `r0`; the statuses stored agree -/
theorem sequential_sync_evicts_other_address :
    ((afterTwoPayments true).store.vtx.get? "T0").isSome ∧
    ((afterTwoPayments true).store.vtx.get? "T1").isSome ∧
    ((afterTwoPayments false).store.vtx.get? "T0").isSome ∧
    (afterTwoPayments false).store.vtx.get? "T1" = none ∧
    getAddressStatus (afterTwoPayments true).store.address "r1" = "s1" ∧
    getAddressStatus (afterTwoPayments false).store.address "r1" = "s1" := by
  decide

end Nunchuk
