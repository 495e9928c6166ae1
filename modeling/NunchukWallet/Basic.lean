import Mathlib.Logic.Function.Basic
import Mathlib.Data.List.Perm.Basic

/-!
# Wallet data model: ids, statuses, transactions, coins and maps

The records that the wallet store (`NunchukWalletDb`) and the synchronizer read and write,
with the fields the modelled functions use.

* `TransactionStatus`, `CoinStatus`   the two status enums; `CoinStatus.toNat` is the value of
                                     the enum, the order `set_status` compares by;
* `TxInput`, `TxOutput`              the pairs `(txid, vout)` and `(address, amount)`;
* `coinId`                           the key `"{txid}:{vout}"` of a coin;
* `Transaction`                      the transaction view `GetTransactions` returns;
* `UnspentOutput`                    a coin;
* `Dict`                             a `std::map`: lookups, `m[k]` followed by writes, erase.

The declarations of `nunchuk.h` are not among the sources; the enums and the default coin
follow the spec.
-/

namespace Nunchuk

abbrev TxId := String
abbrev Address := String
/-- satoshis (`int64_t`) -/
abbrev Amount := Int

/-! ## statuses -/

/-- Modelled from the spec: `TransactionStatus` of `nunchuk.h` (not among the sources),
the states of the transaction state machine of §4.3. -/
inductive TransactionStatus where
  | pendingSignatures
  | readyToBroadcast
  | networkRejected
  | pendingConfirmation
  | replaced
  | confirmed
deriving DecidableEq, Repr

/-- Modelled from the spec: `CoinStatus` of `nunchuk.h` (not among the sources). §4.2 orders
`INCOMING_PENDING_CONFIRMATION < CONFIRMED` and `OUTGOING_PENDING_SIGNATURES <
OUTGOING_PENDING_BROADCAST < OUTGOING_PENDING_CONFIRMATION < SPENT`, a spend overriding a
receipt. -/
inductive CoinStatus where
  | incomingPendingConfirmation
  | confirmed
  | outgoingPendingSignatures
  | outgoingPendingBroadcast
  | outgoingPendingConfirmation
  | spent
deriving DecidableEq, Repr

/-- the value of the enum: `a < b` on coin statuses is `a.toNat < b.toNat` -/
def CoinStatus.toNat : CoinStatus → Nat
  | .incomingPendingConfirmation => 0
  | .confirmed => 1
  | .outgoingPendingSignatures => 2
  | .outgoingPendingBroadcast => 3
  | .outgoingPendingConfirmation => 4
  | .spent => 5

theorem CoinStatus.toNat_injective : Function.Injective CoinStatus.toNat := by
  intro a b h
  cases a <;> cases b <;> first | rfl | cases h

/-! ## transactions and coins -/

/-- `TxInput`: the outpoint `(txid, vout)` an input spends -/
structure TxInput where
  txid : TxId
  vout : Nat
deriving DecidableEq, Repr

/-- `TxOutput`: the address an output pays and its amount -/
structure TxOutput where
  address : Address
  amount : Amount
deriving DecidableEq, Repr

/-- the key of a coin. `CoinId` renders it as `"{txid}:{vout}"`; the digits of `vout` hold no
`:`, so the rendering is injective and the pair stands for the string. -/
abbrev CoinKey := TxId × Nat

def coinId (txId : TxId) (vout : Nat) : CoinKey := (txId, vout)

/-- the outpoint an input spends, as a coin key -/
def TxInput.key (i : TxInput) : CoinKey := coinId i.txid i.vout

/-- the transaction view of `GetTransactions` / `GetTransaction`, with the fields the modelled
functions read (the defaults serve only to write concrete transactions) -/
structure Transaction where
  txid : TxId := ""
  height : Int := 0
  inputs : List TxInput := []
  outputs : List TxOutput := []
  status : TransactionStatus := .pendingConfirmation
  blocktime : Int := 0
  scheduleTime : Int := -1
  memo : String := ""
deriving DecidableEq, Repr

/-- `UnspentOutput`: a coin, with the fields `GetCoinsFromTransactions` writes -/
structure UnspentOutput where
  txid : TxId
  vout : Nat
  address : Address
  amount : Amount
  height : Int
  blocktime : Int
  scheduleTime : Int
  status : CoinStatus
  memo : String
  change : Bool
deriving DecidableEq, Repr

/-- Modelled from the spec: the coin `coins[id]` creates (the constructor of `UnspentOutput` is
in `nunchuk.h`, not among the sources); its status is the lowest, so that the first
`set_status` always takes. -/
def UnspentOutput.empty : UnspentOutput :=
  { txid := "", vout := 0, address := "", amount := 0, height := 0, blocktime := 0,
    scheduleTime := 0, status := .incomingPendingConfirmation, memo := "", change := false }

/-! ## `std::map` -/

/-- a `std::map<K, V>` as the list of its entries. The modelled code looks entries up, writes
through `m[k]` and iterates; the entries stay in insertion order (the source iterates in key
order, which only sums and membership tests read here). -/
structure Dict (K V : Type) where
  entries : List (K × V)
deriving DecidableEq, Repr

namespace Dict
variable {K V : Type} [DecidableEq K]

def empty : Dict K V := ⟨[]⟩

def findEntry (k : K) : List (K × V) → Option V
  | [] => none
  | e :: es => if e.1 = k then some e.2 else findEntry k es

/-- `m.count(k)` and `m.at(k)` together -/
def get? (m : Dict K V) (k : K) : Option V := findEntry k m.entries

def upsertEntries (k : K) (d : V) (f : V → V) : List (K × V) → List (K × V)
  | [] => [(k, f d)]
  | e :: es => if e.1 = k then (e.1, f e.2) :: es else e :: upsertEntries k d f es

/-- `m[k]` (which inserts the default `d` when `k` is absent) followed by the writes `f` -/
def upsert (m : Dict K V) (k : K) (d : V) (f : V → V) : Dict K V :=
  ⟨upsertEntries k d f m.entries⟩

/-- the values, in iteration order -/
def values (m : Dict K V) : List V := m.entries.map (·.2)

@[simp] theorem get?_empty (k : K) : (empty : Dict K V).get? k = none := rfl

theorem findEntry_upsertEntries (k k' : K) (d : V) (f : V → V) (es : List (K × V)) :
    findEntry k' (upsertEntries k d f es) =
      if k = k' then some (f ((findEntry k es).getD d)) else findEntry k' es := by
  induction es with
  | nil => simp [upsertEntries, findEntry]
  | cons e es ih =>
    by_cases he : e.1 = k
    · subst he; by_cases hk : e.1 = k' <;> simp [upsertEntries, findEntry, hk]
    · simp only [upsertEntries, findEntry, he, if_false, ih]
      by_cases hk : k = k'
      · subst hk; simp [he]
      · simp [hk]

@[simp] theorem get?_upsert (m : Dict K V) (k k' : K) (d : V) (f : V → V) :
    (m.upsert k d f).get? k' = if k = k' then some (f ((m.get? k).getD d)) else m.get? k' :=
  findEntry_upsertEntries k k' d f m.entries

/-- an entry after `upsert` is an old one, or the entry of `k` rewritten from the default or
from an old value of `k` -/
theorem mem_upsertEntries {k : K} {d : V} {f : V → V} {es : List (K × V)} {e : K × V}
    (h : e ∈ upsertEntries k d f es) :
    e ∈ es ∨ (e.1 = k ∧ ∃ v, (v = d ∨ (k, v) ∈ es) ∧ e.2 = f v) := by
  induction es with
  | nil => simp [upsertEntries] at h; exact .inr ⟨by rw [h], d, .inl rfl, by rw [h]⟩
  | cons e' es ih =>
    unfold upsertEntries at h
    split at h
    · next he =>
      rcases List.mem_cons.mp h with rfl | h
      · exact .inr ⟨he, e'.2, .inr (he ▸ List.mem_cons_self _ _), rfl⟩
      · exact .inl (List.mem_cons_of_mem _ h)
    · rcases List.mem_cons.mp h with rfl | h
      · exact .inl (List.mem_cons_self _ _)
      · exact (ih h).imp (List.mem_cons_of_mem _) fun ⟨hk, v, hv, he⟩ =>
          ⟨hk, v, hv.imp_right (List.mem_cons_of_mem _), he⟩

/-- every old entry survives `upsert` up to `f`, which keeps `p` -/
theorem exists_mem_upsertEntries {α : Type} {p : V → α} {k : K} {d : V} {f : V → V}
    (hf : ∀ v, p (f v) = p v) {es : List (K × V)} {e : K × V} (he : e ∈ es) :
    ∃ e' ∈ upsertEntries k d f es, e'.1 = e.1 ∧ p e'.2 = p e.2 := by
  induction es with
  | nil => cases he
  | cons e₀ es ih =>
    unfold upsertEntries
    rcases List.mem_cons.mp he with rfl | he
    · split
      · exact ⟨_, List.mem_cons_self _ _, rfl, hf _⟩
      · exact ⟨_, List.mem_cons_self _ _, rfl, rfl⟩
    · split
      · exact ⟨e, List.mem_cons_of_mem _ he, rfl, rfl⟩
      · obtain ⟨e', he', h⟩ := ih he
        exact ⟨e', List.mem_cons_of_mem _ he', h⟩

theorem nodup_upsertEntries (k : K) (d : V) (f : V → V) {es : List (K × V)}
    (h : (es.map Prod.fst).Nodup) : ((upsertEntries k d f es).map Prod.fst).Nodup := by
  induction es with
  | nil => simp [upsertEntries]
  | cons e es ih =>
    rw [List.map_cons, List.nodup_cons] at h
    unfold upsertEntries
    split
    · simpa using h
    · rw [List.map_cons, List.nodup_cons]
      refine ⟨fun hm => ?_, ih h.2⟩
      obtain ⟨e', he', hk⟩ := List.mem_map.mp hm
      rcases mem_upsertEntries he' with he' | ⟨he', -⟩
      · exact h.1 (hk ▸ List.mem_map_of_mem _ he')
      · exact ‹¬e.1 = k› (hk ▸ he')

/-- `UPDATE ... WHERE key = k`: the entry of `k`, if any, rewritten by `f` -/
def modify (m : Dict K V) (k : K) (f : V → V) : Dict K V :=
  ⟨m.entries.map fun e => if e.1 = k then (e.1, f e.2) else e⟩

/-- `DELETE ... WHERE key = k` -/
def erase (m : Dict K V) (k : K) : Dict K V := ⟨m.entries.filter fun e => e.1 != k⟩

/-- `INSERT` without a conflict clause: nothing happens when `k` is taken -/
def insertNew (m : Dict K V) (k : K) (v : V) : Dict K V := m.upsert k v id

/-- `m[k] = v` -/
def set (m : Dict K V) (k : K) (v : V) : Dict K V := m.upsert k v fun _ => v

@[simp] theorem get?_modify (m : Dict K V) (k k' : K) (f : V → V) :
    (m.modify k f).get? k' = if k = k' then (m.get? k).map f else m.get? k' := by
  obtain ⟨es⟩ := m
  simp only [modify, get?]
  induction es with
  | nil => simp [findEntry]
  | cons e es ih =>
    by_cases he : e.1 = k
    · subst he; by_cases hk : e.1 = k' <;> simp [findEntry, hk, ih]
    · by_cases hk : e.1 = k'
      · subst hk; simp [findEntry, he, Ne.symm he]
      · simp [findEntry, he, hk, ih]

@[simp] theorem get?_erase (m : Dict K V) (k k' : K) :
    (m.erase k).get? k' = if k = k' then none else m.get? k' := by
  obtain ⟨es⟩ := m
  simp only [erase, get?]
  induction es with
  | nil => simp [findEntry]
  | cons e es ih =>
    by_cases he : e.1 = k
    · subst he; by_cases hk : e.1 = k' <;> simp_all [findEntry, List.filter_cons]
    · by_cases hk : e.1 = k'
      · subst hk; simp [findEntry, List.filter_cons, he, Ne.symm he]
      · simp_all [findEntry, List.filter_cons]

@[simp] theorem get?_insertNew (m : Dict K V) (k k' : K) (v : V) :
    (m.insertNew k v).get? k' = if k = k' then some ((m.get? k).getD v) else m.get? k' :=
  get?_upsert m k k' v id

@[simp] theorem get?_set (m : Dict K V) (k k' : K) (v : V) :
    (m.set k v).get? k' = if k = k' then some v else m.get? k' :=
  get?_upsert m k k' v _

theorem mem_of_findEntry {es : List (K × V)} {k : K} {v : V} (h : findEntry k es = some v) :
    (k, v) ∈ es := by
  induction es with
  | nil => cases h
  | cons e es ih =>
    unfold findEntry at h
    split at h
    · next he => cases h; exact he ▸ List.mem_cons_self _ _
    · exact List.mem_cons_of_mem _ (ih h)

theorem findEntry_of_mem {es : List (K × V)} (hnd : (es.map Prod.fst).Nodup) {e : K × V}
    (h : e ∈ es) : findEntry e.1 es = some e.2 := by
  induction es with
  | nil => cases h
  | cons e' es ih =>
    rw [List.map_cons, List.nodup_cons] at hnd
    rcases List.mem_cons.mp h with rfl | h
    · simp [findEntry]
    · have : e'.1 ≠ e.1 := fun he => hnd.1 (he ▸ List.mem_map_of_mem _ h)
      simp [findEntry, this, ih hnd.2 h]

/-- a key `f v` of no value `v` of the list keeps its entry when the values are set in turn -/
theorem get?_foldl_set_of_not_mem (f : V → K) {vs : List V} (m₀ : Dict K V) {k : K}
    (hk : k ∉ vs.map f) : (vs.foldl (fun m v => m.set (f v) v) m₀).get? k = m₀.get? k := by
  induction vs generalizing m₀ with
  | nil => rfl
  | cons v vs ih =>
    simp only [List.map_cons, List.mem_cons, not_or] at hk
    rw [List.foldl_cons, ih _ hk.2, get?_set, if_neg (Ne.symm hk.1)]

/-- the key `f v` of a value of the list holds one of the values of the list -/
theorem exists_get?_foldl_set (f : V → K) {vs : List V} (m₀ : Dict K V) {k : K}
    (hk : k ∈ vs.map f) : ∃ v ∈ vs, (vs.foldl (fun m v => m.set (f v) v) m₀).get? k = some v := by
  induction vs generalizing m₀ with
  | nil => cases hk
  | cons v vs ih =>
    rw [List.foldl_cons]
    by_cases h : k ∈ vs.map f
    · obtain ⟨v', hv', he⟩ := ih (m₀.set (f v) v) h
      exact ⟨v', List.mem_cons_of_mem _ hv', he⟩
    · have hv : k = f v := by simpa [h] using hk
      refine ⟨v, List.mem_cons_self _ _, ?_⟩
      rw [get?_foldl_set_of_not_mem f _ h, get?_set, if_pos hv.symm]

end Dict

/-! ## addresses -/

/-- `AddressData`: one entry of `GetAllAddressData` -/
structure AddressData where
  address : Address
  index : Int
  internal : Bool
  used : Bool
deriving DecidableEq, Repr

/-- the map `GetAllAddressData` returns -/
abbrev AddressMap := Dict Address AddressData

/-- `IsMyAddress`: `GetAllAddressData().count(address)` -/
def isMyAddress (all : AddressMap) (a : Address) : Bool := (all.get? a).isSome

/-- `IsMyChange`: `all.count(address) && all.at(address).internal` -/
def isMyChange (all : AddressMap) (a : Address) : Bool :=
  match all.get? a with
  | some d => d.internal
  | none => false

/-! ## text columns -/

/-- `std::string((char*)sqlite3_column_text(stmt, i))`: the stored text up to its first NUL -/
def columnText (s : String) : String := ⟨s.data.takeWhile (· ≠ '\x00')⟩

/-- a text without the character NUL -/
def NoNul (s : String) : Prop := '\x00' ∉ s.data

instance (s : String) : Decidable (NoNul s) := inferInstanceAs (Decidable (_ ∉ _))

theorem columnText_of_noNul {s : String} (h : NoNul s) : columnText s = s := by
  unfold columnText
  rw [List.takeWhile_eq_self_iff.mpr fun c hc => by
    simpa using fun he : c = '\x00' => h (he ▸ hc)]

end Nunchuk
