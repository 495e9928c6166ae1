import NunchukWallet.Store.Vtx

/-!
# The coin-control tables and their writers

`NunchukWalletDb::CreateCoinControlTable` keeps the coin annotations of a wallet in five tables:
TAGS and COLLECTIONS (`ID INTEGER PRIMARY KEY`, `NAME ... UNIQUE`), their join tables COINTAGS
and COINCOLLECTIONS (`PRIMARY KEY (COIN, TAGID)`), and COININFO (`COIN` primary key, a memo and a
lock flag). No table declares a foreign key: the join tables are kept consistent by the writers.

A tag and a collection are the same kind of row, a name with its data (the colour, or the two
flags of SETTINGS), each with its join table. `Labels` is such a table together with its join
table, and its statements are written once; each writer of the source is an instance.

* `NamedRow`, `Labels`, `CoinInfoRow`, `CoinControl`   the tables;
* `Labels.create`, `Labels.update`, `Labels.delete`, `Labels.addTo`, `Labels.removeFrom`   the
  statements of the writers of one table and its join table;
* `Labels.upsertRow`, `Labels.insertMember`, `upsertCoinInfo`   the statements of the import;
* `createCoinTag`, ..., `removeFromCoinCollection`, `updateCoinMemo`, `lockCoin`, `unlockCoin`,
  `clearCoinControlData`   the writers of `NunchukWalletDb`;
* `toInt`, `columnText`   what `sqlite3_column_int` and `std::string(sqlite3_column_text(...))`
  return for a stored value.

A statement that fails makes `SQLCHECK` of its finalize throw before anything is written.
-/

namespace Nunchuk

/-! ## reading columns -/

/-- a value as an `int`: the low 32 bits, signed (`sqlite3_column_int` of a 64-bit column, and
the conversion of a JSON number to `int`); 2147483648 is 2^31 and 4294967296 is 2^32 -/
def toInt (v : Int) : Int := (v + 2147483648) % 4294967296 - 2147483648

theorem toInt_of_range {v : Int} (h₁ : -2147483648 ≤ v) (h₂ : v < 2147483648) : toInt v = v := by
  unfold toInt
  rw [Int.emod_eq_of_lt (by omega) (by omega)]
  omega

/-- `CoinId(tx_id, vout)`: `"{tx_id}:{vout}"` -/
def coinIdText (txId : TxId) (vout : Int) : String := txId ++ ":" ++ toString vout

/-! ## the tables -/

/-- a row of TAGS (`data`: COLOR) or of COLLECTIONS (`data`: the flags of SETTINGS) -/
structure NamedRow (α : Type) where
  id : Int
  name : String
  data : α
deriving DecidableEq, Repr

/-- a table of named rows with its join table, whose rows `(COIN, ID)` link a coin to a row -/
structure Labels (α : Type) where
  rows : List (NamedRow α)
  members : List (String × Int)
deriving DecidableEq, Repr

/-- SETTINGS of a collection: the `dump()` of `{"add_new_coin": …, "auto_lock": …}`, the text every
writer of the column produces -/
structure CollectionSettings where
  addNewCoin : Bool
  autoLock : Bool
deriving DecidableEq, Repr

/-- a row of COININFO -/
structure CoinInfoRow where
  coin : String
  memo : String
  locked : Int
deriving DecidableEq, Repr

structure CoinControl where
  /-- TAGS and COINTAGS -/
  tags : Labels String
  /-- COLLECTIONS and COINCOLLECTIONS -/
  collections : Labels CollectionSettings
  /-- COININFO -/
  coinInfo : List CoinInfoRow
deriving DecidableEq, Repr

/-! ## the statements on a table and its join table -/

namespace Labels
variable {α : Type} (t : Labels α)

def empty : Labels α := ⟨[], []⟩

def ids : List Int := t.rows.map (·.id)

/-- the rowid an insert without an id takes: one above the largest, `1` in an empty table -/
def nextId : List Int → Int
  | [] => 1
  | i :: is => is.foldl max i + 1

/-- the row `id` renamed and given new data -/
def setRow (id : Int) (name : String) (data : α) : List (NamedRow α) :=
  t.rows.map fun r => if r.id = id then { r with name := name, data := data } else r

/-- `INSERT INTO T(NAME, ...)`: a taken name fails the statement (`sqlite3_changes(db_) != 1`),
which the writer throws as `err`; the new row takes the next rowid, read back with
`sqlite3_column_int` -/
def create (err : StoreError) (name : String) (data : α) : Except StoreError (Int × Labels α) :=
  if t.rows.any (·.name = name) then .error err
  else
    let id := nextId t.ids
    .ok (toInt id, { t with rows := t.rows ++ [⟨id, name, data⟩] })

/-- `UPDATE T SET NAME = ?1, ... WHERE ID = ?3`: no row of the id is no change (`false`); a name
taken by another row fails the statement -/
def update (id : Int) (name : String) (data : α) : Except StoreError (Bool × Labels α) :=
  if t.rows.any (·.id = id) then
    if t.rows.any (fun r => r.name = name ∧ r.id ≠ id) then .error .storageConflict
    else .ok (true, { t with rows := t.setRow id name data })
  else .ok (false, t)

/-- `DELETE FROM T WHERE ID = ?`, then `DELETE FROM JOIN WHERE ID = ?1` -/
def delete (id : Int) : Bool × Labels α :=
  (t.rows.any (·.id = id), ⟨t.rows.filter (·.id ≠ id), t.members.filter (·.2 ≠ id)⟩)

/-- `INSERT OR IGNORE INTO JOIN(COIN, ID) VALUES (?1, ?2)` -/
def addTo (coin : String) (id : Int) : Bool × Labels α :=
  if (coin, id) ∈ t.members then (false, t)
  else (true, { t with members := t.members ++ [(coin, id)] })

/-- `DELETE FROM JOIN WHERE COIN = ?1 AND ID = ?2` -/
def removeFrom (coin : String) (id : Int) : Bool × Labels α :=
  ((coin, id) ∈ t.members, { t with members := t.members.filter (· ≠ (coin, id)) })

/-- `INSERT INTO T(ID, NAME, ...) VALUES (...) ON CONFLICT(ID) DO UPDATE SET NAME=excluded.NAME,
...` of the import: the row of the id is renamed, or a new row inserted; a name taken by another
row fails the statement -/
def upsertRow (id : Int) (name : String) (data : α) : Except StoreError (Labels α) :=
  if t.rows.any (fun r => r.name = name ∧ r.id ≠ id) then .error .storageConflict
  else if t.rows.any (·.id = id) then .ok { t with rows := t.setRow id name data }
  else .ok { t with rows := t.rows ++ [⟨id, name, data⟩] }

/-- `INSERT INTO JOIN(COIN, ID) VALUES (?1, ?2)` of the import: a pair already there fails the
statement -/
def insertMember (coin : String) (id : Int) : Except StoreError (Labels α) :=
  if (coin, id) ∈ t.members then .error .storageConflict
  else .ok { t with members := t.members ++ [(coin, id)] }

/-- `SELECT COIN FROM JOIN WHERE ID = ?` (`GetCoinByTag`, `GetCoinInCollection`) -/
def coinsOf (id : Int) : List String := (t.members.filter (·.2 = id)).map (·.1)

@[simp] theorem ids_setRow (id : Int) (name : String) (data : α) :
    (t.setRow id name data).map (·.id) = t.ids := by
  simp only [setRow, ids, List.map_map]
  exact List.map_congr_left fun r _ => by by_cases h : r.id = id <;> simp [h]

/-! ## join rows that name a row -/

/-- every row of the join table names the id of a row of the table (a `COINTAGS.TAGID` is a
`TAGS.ID`); the schema declares no foreign key that would keep it so -/
def Linked : Prop := ∀ m ∈ t.members, m.2 ∈ t.ids

instance : Decidable t.Linked := inferInstanceAs (Decidable (∀ m ∈ t.members, m.2 ∈ t.ids))

theorem linked_empty : (empty : Labels α).Linked := fun _ h => nomatch h

/-- the keys of the schema, which SQLite enforces: `ID` is the primary key, `NAME` is unique, and
`(COIN, ID)` is the primary key of the join table -/
structure Keyed : Prop where
  ids : t.ids.Nodup
  names : (t.rows.map (·.name)).Nodup
  members : t.members.Nodup

variable {t}

/-- a change that removes no id, and whose new join rows name a row, keeps the table linked -/
theorem Linked.mono {t' : Labels α} (h : t.Linked)
    (hm : ∀ m ∈ t'.members, m ∈ t.members ∨ m.2 ∈ t'.ids) (hi : ∀ i ∈ t.ids, i ∈ t'.ids) :
    t'.Linked :=
  fun m hm' => (hm m hm').elim (fun h' => hi _ (h m h')) id

theorem mem_ids_append {rs : List (NamedRow α)} {r : NamedRow α} {i : Int}
    (h : i ∈ rs.map (·.id)) : i ∈ (rs ++ [r]).map (·.id) := by
  simp only [List.map_append, List.mem_append]; exact .inl h

theorem linked_create {err : StoreError} {name : String} {data : α} {i : Int} {t' : Labels α}
    (h : t.Linked) (hc : t.create err name data = .ok (i, t')) : t'.Linked := by
  unfold create at hc
  split at hc
  · cases hc
  · cases hc; exact h.mono (fun m hm => .inl hm) fun _ => mem_ids_append

theorem linked_update {id : Int} {name : String} {data : α} {b : Bool} {t' : Labels α}
    (h : t.Linked) (hu : t.update id name data = .ok (b, t')) : t'.Linked := by
  unfold update at hu
  split at hu
  · split at hu
    · cases hu
    · cases hu; exact h.mono (fun m hm => .inl hm) fun i hi => by simpa [ids] using hi
  · cases hu; exact h

theorem linked_delete (h : t.Linked) (id : Int) : (t.delete id).2.Linked := by
  intro m hm
  simp only [delete, List.mem_filter, decide_eq_true_eq] at hm
  obtain ⟨r, hr, hri⟩ := List.mem_map.mp (h m hm.1)
  exact List.mem_map.mpr ⟨r, List.mem_filter.mpr ⟨hr, by simp [hri, hm.2]⟩, hri⟩

theorem linked_addTo (h : t.Linked) (coin : String) {id : Int} (hid : id ∈ t.ids) :
    (t.addTo coin id).2.Linked := by
  unfold addTo
  split
  · exact h
  · refine h.mono (fun m hm => ?_) fun _ hi => hi
    rcases List.mem_append.mp hm with hm | hm
    · exact .inl hm
    · simp only [List.mem_singleton] at hm; subst hm; exact .inr hid

theorem linked_removeFrom (h : t.Linked) (coin : String) (id : Int) :
    (t.removeFrom coin id).2.Linked :=
  h.mono (fun _ hm => .inl (List.mem_filter.mp hm).1) fun _ hi => hi

/-- the upsert of the import keeps the table linked, and leaves a row of the id -/
theorem linked_upsertRow {id : Int} {name : String} {data : α} {t' : Labels α} (h : t.Linked)
    (hu : t.upsertRow id name data = .ok t') : t'.Linked ∧ id ∈ t'.ids := by
  unfold upsertRow at hu
  split at hu
  · cases hu
  · split at hu
    · next hid =>
      cases hu
      refine ⟨h.mono (fun m hm => .inl hm) fun i hi => by simpa [ids] using hi, ?_⟩
      obtain ⟨r, hr, hri⟩ := List.any_eq_true.mp hid
      simpa [ids] using List.mem_map.mpr ⟨r, hr, of_decide_eq_true hri⟩
    · cases hu
      exact ⟨h.mono (fun m hm => .inl hm) fun _ => mem_ids_append, by simp [ids]⟩

/-- the insert of the import, for the id of a row, keeps the table linked and its rows -/
theorem linked_insertMember {coin : String} {id : Int} {t' : Labels α} (h : t.Linked)
    (hid : id ∈ t.ids) (hi : t.insertMember coin id = .ok t') : t'.Linked ∧ t'.rows = t.rows := by
  unfold insertMember at hi
  split at hi
  · cases hi
  · cases hi
    refine ⟨h.mono (fun m hm => ?_) fun _ hi => hi, rfl⟩
    rcases List.mem_append.mp hm with hm | hm
    · exact .inl hm
    · simp only [List.mem_singleton] at hm; subst hm; exact .inr hid

end Labels

/-! ## the writers of `NunchukWalletDb` -/

def CoinControl.empty : CoinControl := ⟨.empty, .empty, []⟩

/-- both join tables link every row to a tag or a collection -/
def CoinControl.Linked (cc : CoinControl) : Prop := cc.tags.Linked ∧ cc.collections.Linked

instance (cc : CoinControl) : Decidable cc.Linked := inferInstanceAs (Decidable (_ ∧ _))

/-- the keys of the schema in the five tables -/
structure CoinControl.Keyed (cc : CoinControl) : Prop where
  tags : cc.tags.Keyed
  collections : cc.collections.Keyed
  coinInfo : (cc.coinInfo.map (·.coin)).Nodup

/-- `INSERT INTO COININFO(COIN, MEMO, LOCKED) VALUES (?1, ?2, ?3) ON CONFLICT(COIN) DO UPDATE SET`
the memo when `setMemo`, the lock flag when `setLocked` -/
def upsertCoinInfo (coin memo : String) (locked : Int) (setMemo setLocked : Bool)
    (rows : List CoinInfoRow) : List CoinInfoRow :=
  if rows.any (·.coin = coin) then
    rows.map fun r => if r.coin = coin then
      { r with memo := if setMemo then memo else r.memo,
               locked := if setLocked then locked else r.locked } else r
  else rows ++ [⟨coin, memo, locked⟩]

section
variable (cc : CoinControl)

def createCoinTag (name color : String) : Except StoreError (Int × CoinControl) :=
  (cc.tags.create (.tagExists "Tag exists") name color).map fun (id, t) => (id, { cc with tags := t })

def updateCoinTag (id : Int) (name color : String) : Except StoreError (Bool × CoinControl) :=
  (cc.tags.update id name color).map fun (b, t) => (b, { cc with tags := t })

def deleteCoinTag (tagId : Int) : Bool × CoinControl :=
  let (b, t) := cc.tags.delete tagId
  (b, { cc with tags := t })

def addToCoinTag (tagId : Int) (txId : TxId) (vout : Int) : Bool × CoinControl :=
  let (b, t) := cc.tags.addTo (coinIdText txId vout) tagId
  (b, { cc with tags := t })

def removeFromCoinTag (tagId : Int) (txId : TxId) (vout : Int) : Bool × CoinControl :=
  let (b, t) := cc.tags.removeFrom (coinIdText txId vout) tagId
  (b, { cc with tags := t })

/-- `CreateCoinCollection`: the default settings `{"add_new_coin": false, "auto_lock": false}` -/
def createCoinCollection (name : String) : Except StoreError (Int × CoinControl) :=
  (cc.collections.create (.collectionExists "Collection exists") name ⟨false, false⟩).map
    fun (id, t) => (id, { cc with collections := t })

def updateCoinCollection (id : Int) (name : String) (settings : CollectionSettings) :
    Except StoreError (Bool × CoinControl) :=
  (cc.collections.update id name settings).map fun (b, t) => (b, { cc with collections := t })

def deleteCoinCollection (collectionId : Int) : Bool × CoinControl :=
  let (b, t) := cc.collections.delete collectionId
  (b, { cc with collections := t })

def addToCoinCollection (collectionId : Int) (txId : TxId) (vout : Int) : Bool × CoinControl :=
  let (b, t) := cc.collections.addTo (coinIdText txId vout) collectionId
  (b, { cc with collections := t })

def removeFromCoinCollection (collectionId : Int) (txId : TxId) (vout : Int) :
    Bool × CoinControl :=
  let (b, t) := cc.collections.removeFrom (coinIdText txId vout) collectionId
  (b, { cc with collections := t })

/-- `UpdateCoinMemo`: a new row is unlocked -/
def updateCoinMemo (txId : TxId) (vout : Int) (memo : String) : CoinControl :=
  { cc with coinInfo := upsertCoinInfo (coinIdText txId vout) memo 0 true false cc.coinInfo }

/-- `LockCoin`: a new row has an empty memo -/
def lockCoin (txId : TxId) (vout : Int) : CoinControl :=
  { cc with coinInfo := upsertCoinInfo (coinIdText txId vout) "" 1 false true cc.coinInfo }

def unlockCoin (txId : TxId) (vout : Int) : CoinControl :=
  { cc with coinInfo := upsertCoinInfo (coinIdText txId vout) "" 0 false true cc.coinInfo }

/-- `ClearCoinControlData`: the five tables emptied -/
def clearCoinControlData (_ : CoinControl) : CoinControl := CoinControl.empty

end

end Nunchuk
