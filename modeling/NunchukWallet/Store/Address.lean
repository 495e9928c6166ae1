import NunchukWallet.Store.Vtx

/-!
# The ADDRESS table and the address cache

`NunchukWalletDb` keeps the addresses it has handed out or seen active in the ADDRESS table
(index, branch, used flag and the `utxo|status` text of the last subscription) and, per store
file, the map `addr_cache_` that the first `GetAllAddressData` derives from the descriptors and
that `AddAddress` patches afterwards.

* `WalletDescriptor`      what the derivation reads of the wallet;
* `setAddress`, `getCurrentAddressIndex`, `getAddressStatus`   the table;
* `useAddress`, `getAllAddressData`, `addAddress`, `setUtxos`, `forceRefresh`   the cache and
                          the writers that consult it;
* `WalletStore`, `StoreOp`, `runStoreOps`   the store (VTX, ADDRESS and the cache) and
                          sequences of calls.
-/

namespace Nunchuk

/-- `ADDRESS_LOOK_AHEAD` -/
def addressLookAhead : Int := 20

/-- Modelled from the spec: the wallet as address derivation reads it. The descriptors and
`DeriveAddress`/`DeriveAddresses` (CoreUtils) are not among the sources; §3 makes derivation pure
and deterministic, a function of the branch (`true`: `INTERNAL_ALL`) and the index. -/
structure WalletDescriptor where
  escrow : Bool
  derive : Bool → Nat → Address
  /-- `DeriveAddress(get_descriptor(EXTERNAL_ALL))` of an escrow wallet -/
  escrowAddress : Address

/-- Modelled from the spec: `DeriveAddresses(descriptor, 0, last)`, the addresses at the indices
`0` to `last` -/
def deriveAddresses (w : WalletDescriptor) (internal : Bool) (last : Int) : List Address :=
  (List.range (last + 1).toNat).map (w.derive internal)

/-- Modelled from the spec: `DeriveAddress(descriptor, index)`; the descriptor of an escrow
wallet has one address -/
def addressAt (w : WalletDescriptor) (internal : Bool) (index : Int) : Address :=
  if w.escrow then w.escrowAddress else w.derive internal index.toNat

/-- a row of the ADDRESS table, keyed by ADDR -/
structure AddressRow where
  index : Int
  internal : Bool
  used : Bool
  utxo : String
deriving DecidableEq, Repr

abbrev AddressTable := Dict Address AddressRow

/-! ## the table -/

/-- `SetAddress`: insert, or on conflict overwrite USED and UTXO -/
def setAddress (address : Address) (index : Int) (internal : Bool) (utxos : String)
    (t : AddressTable) : AddressTable :=
  t.upsert address ⟨index, internal, !utxos.isEmpty, utxos⟩
    fun r => { r with used := !utxos.isEmpty, utxo := utxos }

/-- `MAX(IDX)` of a column, `-1` when there is no row -/
def maxIndex : List Int → Int
  | [] => -1
  | i :: is => is.foldl max i

/-- `GetCurrentAddressIndex`: `SELECT MAX(IDX) FROM ADDRESS WHERE INTERNAL = ?` -/
def getCurrentAddressIndex (t : AddressTable) (internal : Bool) : Int :=
  maxIndex ((t.values.filter (·.internal == internal)).map (·.index))

/-- `join(v, delim)` (stringutils.hpp): the items with `delim` between them -/
def join (v : List String) (delim : Char) : String :=
  String.mk (List.intercalate [delim] (v.map (·.data)))

/-- `split(text, '|')` -/
def splitFields (text : String) : List String := (text.data.splitOn '|').map String.mk

/-- `GetAddressStatus`: the second `|`-field of UTXO read as a C string, or `""` -/
def getAddressStatus (t : AddressTable) (address : Address) : String :=
  match t.get? address with
  | some r =>
    match splitFields (columnText r.utxo) with
    | _ :: status :: _ => status
    | _ => ""
  | none => ""

/-! ## the store and the cache -/

structure WalletStore where
  vtx : Vtx
  address : AddressTable
  /-- `addr_cache_[db_file_name_]`, absent until `GetAllAddressData` fills it -/
  cache : Option AddressMap
deriving DecidableEq, Repr

/-- `UseAddress`: mark a cached address used; nothing without a cache or outside it -/
def useAddress (cache : Option AddressMap) (address : Address) : Option AddressMap :=
  if address.isEmpty then cache
  else cache.map fun c => c.modify address fun d => { d with used := true }

/-- the output addresses of the stored transactions, each of which `GetAllAddressData` marks
used after a fill -/
def storedOutputs (s : Vtx) : List Address :=
  s.values.flatMap fun r => r.value.tx.outputs.map (·.address)

/-- `for (auto&& addr : addrs) addresses[addr] = {addr, index++, internal, false};` -/
def insertDerived (internal : Bool) : Nat → List Address → AddressMap → AddressMap
  | _, [], m => m
  | i, a :: as, m => insertDerived internal (i + 1) as (m.set a ⟨a, i, internal, false⟩)

section
variable (w : WalletDescriptor)

/-- the map a fill of `GetAllAddressData` derives: for each branch, the indices up to the
current index plus `ADDRESS_LOOK_AHEAD` -/
def fillAddressData (t : AddressTable) : AddressMap :=
  if w.escrow then Dict.empty.set w.escrowAddress ⟨w.escrowAddress, 0, false, false⟩
  else
    let m := insertDerived true 0
      (deriveAddresses w true (getCurrentAddressIndex t true + addressLookAhead)) Dict.empty
    insertDerived false 0
      (deriveAddresses w false (getCurrentAddressIndex t false + addressLookAhead)) m

/-- `GetAllAddressData`: the cached map, or a fill, cached with the outputs of the stored
transactions marked used (the fill itself is returned unmarked) -/
def getAllAddressData (s : WalletStore) : AddressMap × WalletStore :=
  match s.cache with
  | some c => (c, s)
  | none =>
    let addresses := fillAddressData w s.address
    (addresses, { s with cache := (storedOutputs s.vtx).foldl useAddress (some addresses) })

/-- `AddAddress`: the row, then the address into the cache if `IsMyAddress` does not know it -/
def addAddress (address : Address) (index : Int) (internal : Bool) (s : WalletStore) :
    WalletStore :=
  let s := { s with address := setAddress address index internal "" s.address }
  let (all, s) := getAllAddressData w s
  if isMyAddress all address then s
  else { s with cache := some ((s.cache.getD Dict.empty).set address ⟨address, index, internal, false⟩) }

/-- `SetUtxos`: only an address of `GetAllAddressData` gets a row, with the cached index and
branch -/
def setUtxos (address : Address) (utxo : String) (s : WalletStore) : Bool × WalletStore :=
  let (all, s) := getAllAddressData w s
  match all.get? address with
  | none => (false, s)
  | some d => (true, { s with address := setAddress address d.index d.internal utxo s.address })

end

/-- `ForceRefresh`: both tables emptied, the cache dropped -/
def forceRefresh (_ : WalletStore) : WalletStore := ⟨Dict.empty, Dict.empty, none⟩

/-- `GetTransaction`'s `UseAddress` of the outputs of the row it reads -/
def useRowOutputs (v : Vtx) (txId : TxId) (cache : Option AddressMap) : Option AddressMap :=
  match v.get? txId with
  | some r => (r.value.tx.outputs.map (·.address)).foldl useAddress cache
  | none => cache

/-- the row a writer reads back with `GetTransaction` at its end: always for the inserts, when a
row was updated for the updates -/
def VtxOp.readBack (s : Vtx) : VtxOp → Option TxId
  | .insertTransaction r .. => (decodeRawTransaction r).toOption.map (·.txid)
  | .createPsbt p .. => (decodePsbt p).toOption.map (·.txid)
  | .updatePsbt p =>
    match Nunchuk.updatePsbt p s with
    | .ok (true, _) => some p.tx.txid
    | _ => none
  | .updateTransaction r h b m =>
    match Nunchuk.updateTransaction r h b m s with
    | .ok (true, _) => some r.tx.txid
    | _ => none
  | _ => none

/-- a call of `NunchukWalletDb` that touches the address data -/
inductive StoreOp where
  | addAddress (address : Address) (index : Int) (internal : Bool)
  | setUtxos (address : Address) (utxo : String)
  | vtx (op : VtxOp)
  | forceRefresh
  /-- `GetAllAddressData`, and every read that calls it (`IsMyAddress`, `GetAddresses`,
  `GetAllAddresses`, `GetAddressIndex`, `GetWallet`) -/
  | getAllAddressData
  | getTransaction (txId : TxId)
deriving DecidableEq, Repr

/-- the store after one call; a call that throws leaves it as it was -/
def StoreOp.run (w : WalletDescriptor) (s : WalletStore) : StoreOp → WalletStore
  | .addAddress a i b => Nunchuk.addAddress w a i b s
  | .setUtxos a u => (Nunchuk.setUtxos w a u s).2
  | .vtx op =>
    match op.run s.vtx with
    | .ok v =>
      { s with vtx := v, cache := match op.readBack s.vtx with
          | some id => useRowOutputs v id s.cache
          | none => s.cache }
    | .error _ => s
  | .forceRefresh => Nunchuk.forceRefresh s
  | .getAllAddressData => (Nunchuk.getAllAddressData w s).2
  | .getTransaction id => { s with cache := useRowOutputs s.vtx id s.cache }

def runStoreOps (w : WalletDescriptor) (s : WalletStore) (ops : List StoreOp) : WalletStore :=
  ops.foldl (StoreOp.run w) s

/-- a wallet whose addresses are `c0, c1, ...` on the change branch and `r0, r1, ...` on the
receive branch -/
def demoDescriptor : WalletDescriptor :=
  ⟨false, fun b i => (if b then "c" else "r") ++ toString i, "e"⟩

end Nunchuk
