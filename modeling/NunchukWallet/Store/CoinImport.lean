import Mathlib.Data.List.Nodup
import NunchukWallet.Store.CoinTables

/-!
# Exporting and importing the coin-control data

`ExportCoinControlData` writes the five coin-control tables as one JSON document: every tag with
the coins `GetCoinByTag` gives it, every collection with its settings and coins, every row of
COININFO, and the time of the export. `ImportCoinControlData` parses such a document (a text that
does not parse throws before any write), empties the five tables, and inserts what it reads, tag
by tag, collection by collection, row by row. There is no transaction around it: what it wrote
stays written when a later read of the document throws.

* `Json`                      a parsed value; `Json.field`, `Json.elems` and the conversions are
                              `operator[]`, the range of a `for` and `get<T>()` of `nlohmann::json`;
* `TableM`                    statements on tables, a throw keeping what was written;
* `importLabels`, `importCoinInfo`, `importCoinControlData`   the import;
* `exportCoinControlData`     the export, before `dump()`;
* `import_of_array_clears`    a document that is an array empties the tables and throws;
* `import_export_same_rows`   the import of an export restores every row, when the tables link
                              every join row and hold no NUL and no id beyond `int`.

`json::parse(dump(j)) = j` for a value whose strings are UTF-8 (every `String` is), so the export
is followed by the import of the same value; the text between them is not modelled, and the import
takes what `json::parse` reads of its text: a value, or `none` for a text that is not JSON.
-/

namespace Nunchuk

/-! ## JSON values -/

/-- a value of `nlohmann::json` as `json::parse` builds it: numbers are integers, an object holds
one member per key, in key order -/
inductive Json where
  | null
  | bool (b : Bool)
  | num (n : Int)
  | str (s : String)
  | arr (xs : List Json)
  | obj (kvs : List (String × Json))

namespace Json

/-- `j[key]` on a value that is not `const`: a null reads as an empty object and a missing key as
null; an array or a scalar throws -/
def field (key : String) : Json → Except StoreError Json
  | .null => .ok .null
  | .obj kvs => .ok ((kvs.lookup key).getD .null)
  | _ => .error .typeError

/-- what `for (auto&& x : j)` visits: nothing in null, the elements of an array, the values of an
object, and a scalar itself -/
def elems : Json → List Json
  | .null => []
  | .arr xs => xs
  | .obj kvs => kvs.map (·.2)
  | j => [j]

/-- the conversion to `int`: a number (its low 32 bits) or a boolean -/
def getInt : Json → Except StoreError Int
  | .num n => .ok (toInt n)
  | .bool b => .ok (if b then 1 else 0)
  | _ => .error .typeError

def getString : Json → Except StoreError String
  | .str s => .ok s
  | _ => .error .typeError

def getBool : Json → Except StoreError Bool
  | .bool b => .ok b
  | _ => .error .typeError

end Json

/-! ## statements on tables -/

/-- statements on the tables `σ`: what they wrote stays written when a later step throws -/
abbrev TableM (σ : Type) := ExceptT StoreError (StateM σ)

namespace TableM
variable {σ α β : Type}

/-- a read of the document: it throws a `json::type_error` or returns, and writes nothing -/
def read (x : Except StoreError α) : TableM σ α := ExceptT.mk fun s => (x, s)

/-- a statement: it fails and throws, or writes -/
def exec (f : σ → Except StoreError σ) : TableM σ Unit :=
  ExceptT.mk fun s =>
    match f s with
    | .ok s' => (.ok (), s')
    | .error e => (.error e, s)

@[simp] theorem run_pure (a : α) (s : σ) : (pure a : TableM σ α).run s = (.ok a, s) := rfl

@[simp] theorem run_read (x : Except StoreError α) (s : σ) :
    (read x : TableM σ α).run s = (x, s) := rfl

@[simp] theorem run_modify (f : σ → σ) (s : σ) :
    (modify f : TableM σ Unit).run s = (.ok (), f s) := rfl

theorem run_exec_ok {f : σ → Except StoreError σ} {s s' : σ} (h : f s = .ok s') :
    (exec f).run s = (.ok (), s') := by
  show (match f s with | .ok s' => _ | .error e => _) = _
  rw [h]

theorem run_bind (x : TableM σ α) (f : α → TableM σ β) (s : σ) :
    (x >>= f).run s = match x.run s with
      | (.ok a, s') => (f a).run s'
      | (.error e, s') => (.error e, s') := by
  show (ExceptT.bind x f).run s = _
  simp only [ExceptT.bind, ExceptT.run, ExceptT.mk, bind, StateT.bind]
  rcases x s with ⟨_ | a, s'⟩ <;> rfl

theorem run_bind_ok {x : TableM σ α} {f : α → TableM σ β} {s s' : σ} {a : α}
    (h : x.run s = (.ok a, s')) : (x >>= f).run s = (f a).run s' := by
  rw [run_bind, h]

theorem run_read_ok_bind {x : Except StoreError α} {a : α} (h : x = .ok a) (f : α → TableM σ β)
    (s : σ) : (read x >>= f).run s = (f a).run s := by
  subst h; rfl

theorem run_exec_ok_bind (f : σ → Except StoreError σ) {s s' : σ} (h : f s = .ok s')
    (g : Unit → TableM σ β) : (exec f >>= g).run s = (g ()).run s' :=
  run_bind_ok (run_exec_ok h)

end TableM

/-! ## the import -/

section
variable {α : Type} (readData : Json → Except StoreError α)

/-- the loop over `x["coins"]` of one tag or collection: `get<std::string>()`, then the insert into
the join table -/
def importMembers (id : Int) : List Json → TableM (Labels α) Unit
  | [] => pure ()
  | j :: js => do
    let coin ← TableM.read j.getString
    TableM.exec (·.insertMember coin id)
    importMembers id js

/-- one tag or collection of the document: `x["id"]`, `x["name"]` and its data read, the upsert,
then its coins -/
def importLabel (j : Json) : TableM (Labels α) Unit := do
  let id ← TableM.read (j.field "id" >>= Json.getInt)
  let name ← TableM.read (j.field "name" >>= Json.getString)
  let data ← TableM.read (readData j)
  TableM.exec (·.upsertRow id name data)
  let coins ← TableM.read (j.field "coins")
  importMembers id coins.elems

def importLabels : List Json → TableM (Labels α) Unit
  | [] => pure ()
  | j :: js => do
    importLabel readData j
    importLabels js

end

/-- `std::string color = tag["color"]` -/
def tagData (j : Json) : Except StoreError String := j.field "color" >>= Json.getString

/-- the settings of a collection: `collection["add_new_coin"].get<bool>()`, then `["auto_lock"]` -/
def collectionData (j : Json) : Except StoreError CollectionSettings := do
  let addNewCoin ← j.field "add_new_coin" >>= Json.getBool
  let autoLock ← j.field "auto_lock" >>= Json.getBool
  pure ⟨addNewCoin, autoLock⟩

abbrev ImportM := TableM CoinControl

/-- statements on TAGS and COINTAGS, in the store -/
def onTags {β : Type} (x : TableM (Labels String) β) : ImportM β :=
  ExceptT.mk fun cc => let r := x.run cc.tags; (r.1, { cc with tags := r.2 })

/-- statements on COLLECTIONS and COINCOLLECTIONS, in the store -/
def onCollections {β : Type} (x : TableM (Labels CollectionSettings) β) : ImportM β :=
  ExceptT.mk fun cc => let r := x.run cc.collections; (r.1, { cc with collections := r.2 })

/-- the loop over `data["coininfo"]`: `coin`, `memo`, `locked`, then the upsert -/
def importCoinInfo : List Json → ImportM Unit
  | [] => pure ()
  | j :: js => do
    let coin ← TableM.read (j.field "coin" >>= Json.getString)
    let memo ← TableM.read (j.field "memo" >>= Json.getString)
    let locked ← TableM.read (j.field "locked" >>= Json.getInt)
    modify fun cc => { cc with coinInfo := upsertCoinInfo coin memo locked true true cc.coinInfo }
    importCoinInfo js

/-- `json::parse(dataStr)`, given what the parser reads of the text: `none` is a text that is not
JSON, on which it throws -/
def parseDocument : Option Json → Except StoreError Json
  | some data => .ok data
  | none => .error .parseError

/-- `ImportCoinControlData(dataStr)`, `parsed` being what `json::parse(dataStr)` reads: the parse,
which throws before any write, then the tables emptied, then tags, collections and coin rows -/
def importCoinControlData (parsed : Option Json) : ImportM Unit := do
  let data ← TableM.read (parseDocument parsed)
  modify clearCoinControlData
  let tags ← TableM.read (data.field "tags")
  onTags (importLabels tagData tags.elems)
  let collections ← TableM.read (data.field "collections")
  onCollections (importLabels collectionData collections.elems)
  let coininfo ← TableM.read (data.field "coininfo")
  importCoinInfo coininfo.elems

/-! ## an import that throws -/

/-- a store with one tag on one coin, and the coin's memo and lock -/
def taggedCoin : CoinControl :=
  ⟨⟨[⟨1, "savings", "#00ff00"⟩], [("T:0", 1)]⟩, .empty, [⟨"T:0", "rent", 1⟩]⟩

/-- the document `[]`, an array: the tables are emptied, then `data["tags"]` throws -/
theorem import_of_array_clears :
    (importCoinControlData (some (.arr []))).run taggedCoin =
      (.error .typeError, CoinControl.empty) :=
  rfl

/-! ## the export -/

section
variable {α : Type} (t : Labels α) (r : NamedRow α)

/-- the members `coins` (`GetCoinByTag` or `GetCoinInCollection` of the id read back) of a tag or
a collection in the export -/
def coinsMember : String × Json :=
  ("coins", .arr ((t.coinsOf (toInt r.id)).map fun c => .str (columnText c)))

/-- the members `id` and `name` of a tag or a collection in the export -/
def idNameMembers : List (String × Json) :=
  [("id", .num (toInt r.id)), ("name", .str (columnText r.name))]

end

/-- a tag of the export, members in key order -/
def tagJson (t : Labels String) (r : NamedRow String) : Json :=
  .obj (coinsMember t r :: ("color", .str (columnText r.data)) :: idNameMembers r)

/-- a collection of the export, its settings parsed from SETTINGS -/
def collectionJson (t : Labels CollectionSettings) (r : NamedRow CollectionSettings) : Json :=
  .obj (("add_new_coin", .bool r.data.addNewCoin) :: ("auto_lock", .bool r.data.autoLock) ::
    coinsMember t r :: idNameMembers r)

def coinInfoJson (r : CoinInfoRow) : Json :=
  .obj [("coin", .str (columnText r.coin)), ("locked", .num (toInt r.locked)),
    ("memo", .str (columnText r.memo))]

/-- `ExportCoinControlData()` before `dump()`; `now` is `std::time(0)` -/
def exportCoinControlData (now : Int) (cc : CoinControl) : Json :=
  .obj [("coininfo", .arr (cc.coinInfo.map coinInfoJson)),
    ("collections", .arr (cc.collections.rows.map (collectionJson cc.collections))),
    ("export_ts", .num now),
    ("tags", .arr (cc.tags.rows.map (tagJson cc.tags)))]

/-! ## the import of an export -/

/-- a value of an `int` column: `sqlite3_column_int` reads it back unchanged -/
def InInt (v : Int) : Prop := -2147483648 ≤ v ∧ v < 2147483648

instance (v : Int) : Decidable (InInt v) := inferInstanceAs (Decidable (_ ∧ _))

theorem toInt_of_inInt {v : Int} (h : InInt v) : toInt v = v := toInt_of_range h.1 h.2

/-- what the export reads back unchanged from a table: texts without NUL and `int` ids -/
structure Labels.Plain {α : Type} (text : α → Prop) (t : Labels α) : Prop where
  rows : ∀ r ∈ t.rows, InInt r.id ∧ NoNul r.name ∧ text r.data
  members : ∀ m ∈ t.members, NoNul m.1

structure CoinControl.Plain (cc : CoinControl) : Prop where
  tags : cc.tags.Plain NoNul
  collections : cc.collections.Plain fun _ => True
  coinInfo : ∀ r ∈ cc.coinInfo, NoNul r.coin ∧ NoNul r.memo ∧ InInt r.locked

/-- the same rows, as sets -/
def Labels.SameRows {α : Type} (t t' : Labels α) : Prop :=
  (∀ r, r ∈ t.rows ↔ r ∈ t'.rows) ∧ ∀ m, m ∈ t.members ↔ m ∈ t'.members

def CoinControl.SameRows (cc cc' : CoinControl) : Prop :=
  cc.tags.SameRows cc'.tags ∧ cc.collections.SameRows cc'.collections ∧
    ∀ r, r ∈ cc.coinInfo ↔ r ∈ cc'.coinInfo

section
variable {α : Type}

/-- what the import reads of the object `j` exported for the row `r` with the coins `coins` -/
structure ReadsBack (readData : Json → Except StoreError α) (r : NamedRow α)
    (coins : List String) (j : Json) : Prop where
  id : (j.field "id" >>= Json.getInt) = .ok r.id
  name : (j.field "name" >>= Json.getString) = .ok r.name
  data : readData j = .ok r.data
  coins : j.field "coins" = .ok (.arr (coins.map .str))

theorem coinsMember_plain {t : Labels α} (hp : ∀ m ∈ t.members, NoNul m.1) (id : Int) :
    (t.coinsOf id).map (fun c => Json.str (columnText c)) = (t.coinsOf id).map .str :=
  List.map_congr_left fun c hc => by
    obtain ⟨m, hm, rfl⟩ := List.mem_map.mp hc
    rw [columnText_of_noNul (hp m (List.mem_filter.mp hm).1)]

theorem nodup_coinsOf {t : Labels α} (h : t.members.Nodup) (id : Int) : (t.coinsOf id).Nodup :=
  List.Nodup.map_on (fun a ha b hb hab => Prod.ext hab <| by
    simp only [List.mem_filter, decide_eq_true_eq] at ha hb
    rw [ha.2, hb.2]) (List.Nodup.filter _ h)

/-- the rows of the join table, listed tag by tag, are the join table when it is linked -/
theorem mem_flatMap_coinsOf {t : Labels α} (hl : t.Linked) (m : String × Int) :
    m ∈ t.rows.flatMap (fun r => (t.coinsOf r.id).map (·, r.id)) ↔ m ∈ t.members := by
  simp only [List.mem_flatMap, List.mem_map, Labels.coinsOf, List.mem_filter, decide_eq_true_eq]
  constructor
  · rintro ⟨r, -, c, ⟨m', ⟨hm', hid⟩, rfl⟩, rfl⟩
    rwa [← hid]
  · intro hm
    obtain ⟨r, hr, hid⟩ := List.mem_map.mp (hl m hm)
    exact ⟨r, hr, m.1, ⟨m, ⟨hm, hid.symm⟩, rfl⟩, by rw [hid]⟩

theorem importMembers_run (id : Int) :
    ∀ (coins : List String) (t : Labels α), coins.Nodup → (∀ c ∈ coins, (c, id) ∉ t.members) →
      (importMembers id (coins.map .str)).run t =
        (.ok (), { t with members := t.members ++ coins.map (·, id) })
  | [], t, _, _ => by simp [importMembers]
  | c :: cs, t, hnd, hfresh => by
    have hc : t.insertMember c id = .ok { t with members := t.members ++ [(c, id)] } :=
      if_neg (hfresh c (List.mem_cons_self _ _))
    have hcs : ∀ c' ∈ cs, (c', id) ∉ t.members ++ [(c, id)] := fun c' hc' h => by
      rcases List.mem_append.mp h with h | h
      · exact hfresh c' (List.mem_cons_of_mem _ hc') h
      · obtain rfl : c' = c := (Prod.mk.inj (List.mem_singleton.mp h)).1
        exact (List.nodup_cons.mp hnd).1 hc'
    rw [List.map_cons, importMembers, TableM.run_read_ok_bind (show Json.getString (.str c) = .ok c from rfl),
      TableM.run_exec_ok_bind (fun t : Labels α => t.insertMember c id) hc,
      importMembers_run id cs _ (List.nodup_cons.mp hnd).2 hcs]
    simp

theorem upsertRow_fresh {t : Labels α} {r : NamedRow α} (hid : r.id ∉ t.ids)
    (hname : r.name ∉ t.rows.map (·.name)) :
    t.upsertRow r.id r.name r.data = .ok ⟨t.rows ++ [r], t.members⟩ := by
  have h₁ : ¬(t.rows.any fun r' => r'.name = r.name ∧ r'.id ≠ r.id) = true := by
    simp only [List.any_eq_true, decide_eq_true_eq, not_exists, not_and]
    exact fun r' hr hn _ => hname (List.mem_map.mpr ⟨r', hr, hn⟩)
  have h₂ : ¬(t.rows.any (·.id = r.id)) = true := by
    simpa [Labels.ids, List.any_eq_true] using hid
  rw [Labels.upsertRow, if_neg h₁, if_neg h₂]

/-- the import of the object of a row that is new to the table appends the row and its coins -/
theorem importLabel_run {readData : Json → Except StoreError α} {r : NamedRow α}
    {coins : List String} {j : Json} (hj : ReadsBack readData r coins j) {t : Labels α}
    (hid : r.id ∉ t.ids) (hname : r.name ∉ t.rows.map (·.name))
    (hmem : ∀ m ∈ t.members, m.2 ≠ r.id) (hc : coins.Nodup) :
    (importLabel readData j).run t = (.ok (), ⟨t.rows ++ [r], t.members ++ coins.map (·, r.id)⟩) := by
  rw [importLabel, TableM.run_read_ok_bind hj.id, TableM.run_read_ok_bind hj.name,
    TableM.run_read_ok_bind hj.data,
    TableM.run_exec_ok_bind (fun t : Labels α => t.upsertRow r.id r.name r.data)
      (upsertRow_fresh hid hname),
    TableM.run_read_ok_bind hj.coins, Json.elems,
    importMembers_run _ _ ⟨t.rows ++ [r], t.members⟩ hc fun c _ h => hmem _ h rfl]

/-- the import of the objects of rows new to the table, with distinct ids and names, appends the
rows and their coins -/
theorem importLabels_run {readData : Json → Except StoreError α} (J : NamedRow α → Json)
    (coinsOf : Int → List String) :
    ∀ (rows : List (NamedRow α)) (t : Labels α),
      (∀ r ∈ rows, ReadsBack readData r (coinsOf r.id) (J r)) → (∀ r ∈ rows, (coinsOf r.id).Nodup) →
      (t.ids ++ rows.map (·.id)).Nodup → (t.rows.map (·.name) ++ rows.map (·.name)).Nodup →
      t.Linked →
      (importLabels readData (rows.map J)).run t =
        (.ok (), ⟨t.rows ++ rows, t.members ++ rows.flatMap fun r => (coinsOf r.id).map (·, r.id)⟩)
  | [], t, _, _, _, _, _ => by simp [importLabels]
  | r :: rs, t, hj, hc, hids, hnames, hl => by
    have hid : r.id ∉ t.ids := fun h =>
      (List.nodup_append.mp hids).2.2 h (List.mem_cons_self _ _)
    have hname : r.name ∉ t.rows.map (·.name) := fun h =>
      (List.nodup_append.mp hnames).2.2 h (List.mem_cons_self _ _)
    have hl' : (⟨t.rows ++ [r], t.members ++ (coinsOf r.id).map (·, r.id)⟩ : Labels α).Linked :=
      hl.mono (fun m hm => by
        rcases List.mem_append.mp hm with hm | hm
        · exact .inl hm
        · obtain ⟨c, -, rfl⟩ := List.mem_map.mp hm
          exact .inr (by simp [Labels.ids])) fun i hi => by simp [Labels.ids] at hi ⊢; simp [hi]
    rw [List.map_cons, importLabels,
      TableM.run_bind_ok (importLabel_run (hj r (List.mem_cons_self _ _)) hid hname
        (fun m hm h => hid (h ▸ hl m hm)) (hc r (List.mem_cons_self _ _))),
      importLabels_run J coinsOf rs _ (fun r' h => hj r' (List.mem_cons_of_mem _ h))
        (fun r' h => hc r' (List.mem_cons_of_mem _ h)) (by simpa [Labels.ids] using hids)
        (by simpa using hnames) hl']
    simp

end

theorem readsBack_tagJson {t : Labels String} (hp : t.Plain NoNul) {r : NamedRow String}
    (hr : r ∈ t.rows) : ReadsBack tagData r (t.coinsOf r.id) (tagJson t r) := by
  obtain ⟨hid, hname, hdata⟩ := hp.rows r hr
  have hi := toInt_of_inInt hid
  refine ⟨?_, ?_, ?_, ?_⟩
  · show Json.getInt (.num (toInt r.id)) = _
    simp [Json.getInt, hi]
  · show Json.getString (.str (columnText r.name)) = _
    rw [columnText_of_noNul hname]; rfl
  · show Json.getString (.str (columnText r.data)) = _
    rw [columnText_of_noNul hdata]; rfl
  · show Except.ok (Json.arr _) = _
    rw [hi, coinsMember_plain hp.members]

theorem readsBack_collectionJson {t : Labels CollectionSettings} (hp : t.Plain fun _ => True)
    {r : NamedRow CollectionSettings} (hr : r ∈ t.rows) :
    ReadsBack collectionData r (t.coinsOf r.id) (collectionJson t r) := by
  obtain ⟨hid, hname, -⟩ := hp.rows r hr
  have hi := toInt_of_inInt hid
  refine ⟨?_, ?_, rfl, ?_⟩
  · show Json.getInt (.num (toInt r.id)) = _
    simp [Json.getInt, hi]
  · show Json.getString (.str (columnText r.name)) = _
    rw [columnText_of_noNul hname]; rfl
  · show Except.ok (Json.arr _) = _
    rw [hi, coinsMember_plain hp.members]

theorem importCoinInfo_run :
    ∀ (rows : List CoinInfoRow) (cc : CoinControl),
      (∀ r ∈ rows, NoNul r.coin ∧ NoNul r.memo ∧ InInt r.locked) →
      ((cc.coinInfo ++ rows).map (·.coin)).Nodup →
      (importCoinInfo (rows.map coinInfoJson)).run cc =
        (.ok (), { cc with coinInfo := cc.coinInfo ++ rows })
  | [], cc, _, _ => by simp [importCoinInfo]
  | r :: rs, cc, hp, hnd => by
    obtain ⟨hcoin, hmemo, hlocked⟩ := hp r (List.mem_cons_self _ _)
    have hfresh : ¬(cc.coinInfo.any (·.coin = r.coin)) = true := by
      simp only [List.any_eq_true, decide_eq_true_eq, not_exists, not_and]
      intro r' hr' he
      exact (List.nodup_append.mp (by simpa using hnd)).2.2
        (List.mem_map.mpr ⟨r', hr', he⟩) (List.mem_cons_self _ _)
    have hc : (Json.field "coin" (coinInfoJson r) >>= Json.getString) = .ok r.coin :=
      congrArg Except.ok (columnText_of_noNul hcoin)
    have hm : (Json.field "memo" (coinInfoJson r) >>= Json.getString) = .ok r.memo :=
      congrArg Except.ok (columnText_of_noNul hmemo)
    have hk : (Json.field "locked" (coinInfoJson r) >>= Json.getInt) = .ok r.locked :=
      congrArg Except.ok (by rw [toInt_of_inInt hlocked, toInt_of_inInt hlocked])
    rw [List.map_cons, importCoinInfo, TableM.run_read_ok_bind hc, TableM.run_read_ok_bind hm,
      TableM.run_read_ok_bind hk,
      TableM.run_bind_ok (TableM.run_modify _ _), upsertCoinInfo, if_neg hfresh,
      importCoinInfo_run rs _ (fun r' h => hp r' (List.mem_cons_of_mem _ h)) (by simpa using hnd)]
    simp

@[simp] theorem onTags_run {β : Type} (x : TableM (Labels String) β) (cc : CoinControl) :
    (onTags x).run cc = ((x.run cc.tags).1, { cc with tags := (x.run cc.tags).2 }) := rfl

@[simp] theorem onCollections_run {β : Type} (x : TableM (Labels CollectionSettings) β)
    (cc : CoinControl) :
    (onCollections x).run cc =
      ((x.run cc.collections).1, { cc with collections := (x.run cc.collections).2 }) := rfl

/-- The import of an export restores every row of the five tables, when every join row names a
tag or a collection, the keys of the schema hold, no text holds NUL and every id and lock flag is
an `int`. -/
theorem import_export_same_rows (now : Int) (cc : CoinControl) (hl : cc.Linked) (hk : cc.Keyed)
    (hp : cc.Plain) :
    ∃ cc', (importCoinControlData (some (exportCoinControlData now cc))).run cc = (.ok (), cc') ∧
      cc'.SameRows cc := by
  have htags := importLabels_run (tagJson cc.tags) cc.tags.coinsOf cc.tags.rows
    (clearCoinControlData cc).tags (fun r hr => readsBack_tagJson hp.tags hr)
    (fun _ _ => nodup_coinsOf hk.tags.members _) hk.tags.ids hk.tags.names Labels.linked_empty
  have hcols := importLabels_run (collectionJson cc.collections) cc.collections.coinsOf
    cc.collections.rows (clearCoinControlData cc).collections
    (fun r hr => readsBack_collectionJson hp.collections hr)
    (fun _ _ => nodup_coinsOf hk.collections.members _) hk.collections.ids hk.collections.names
    Labels.linked_empty
  refine ⟨⟨⟨cc.tags.rows, cc.tags.rows.flatMap fun r => (cc.tags.coinsOf r.id).map (·, r.id)⟩,
    ⟨cc.collections.rows, cc.collections.rows.flatMap fun r =>
      (cc.collections.coinsOf r.id).map (·, r.id)⟩, cc.coinInfo⟩, ?_,
    ⟨fun _ => Iff.rfl, mem_flatMap_coinsOf hl.1⟩, ⟨fun _ => Iff.rfl, mem_flatMap_coinsOf hl.2⟩,
    fun _ => Iff.rfl⟩
  rw [importCoinControlData, TableM.run_read_ok_bind (show parseDocument
      (some (exportCoinControlData now cc)) = .ok (exportCoinControlData now cc) from rfl),
    TableM.run_bind_ok (TableM.run_modify _ _),
    TableM.run_read_ok_bind (show Json.field "tags" (exportCoinControlData now cc) =
      .ok (.arr (cc.tags.rows.map (tagJson cc.tags))) from rfl),
    TableM.run_bind_ok (by rw [onTags_run, Json.elems, htags]),
    TableM.run_read_ok_bind (show Json.field "collections" (exportCoinControlData now cc) =
      .ok (.arr (cc.collections.rows.map (collectionJson cc.collections))) from rfl),
    TableM.run_bind_ok (by rw [onCollections_run, Json.elems, hcols]),
    TableM.run_read_ok_bind (show Json.field "coininfo" (exportCoinControlData now cc) =
      .ok (.arr (cc.coinInfo.map coinInfoJson)) from rfl),
    Json.elems, importCoinInfo_run _ _ hp.coinInfo (by simpa using hk.coinInfo)]
  rfl

theorem import_export_tagged_coin :
    taggedCoin.Linked ∧ taggedCoin.Keyed ∧ taggedCoin.Plain ∧
      ∃ cc', (importCoinControlData (some (exportCoinControlData 0 taggedCoin))).run taggedCoin =
        (.ok (), cc') ∧ cc'.SameRows taggedCoin :=
  have hl : taggedCoin.Linked := ⟨by decide, by decide⟩
  have hk : taggedCoin.Keyed := ⟨⟨by decide, by decide, by decide⟩, ⟨by decide, by decide, by decide⟩,
    by decide⟩
  have hp : taggedCoin.Plain := ⟨⟨by decide, by decide⟩, ⟨by decide, by decide⟩, by decide⟩
  ⟨hl, hk, hp, import_export_same_rows 0 taggedCoin hl hk hp⟩

/-- a memo holding NUL, and a tag whose id is past `int`, in stores whose join rows link -/
def nulMemo : CoinControl := ⟨.empty, .empty, [⟨"T:0", "a\x00b", 0⟩]⟩
def bigTagId : CoinControl := ⟨⟨[⟨2147483648, "t", "c"⟩], [("T:0", 2147483648)]⟩, .empty, []⟩

/-- The import of an export cuts a memo at its NUL, and gives a tag past `int` the id
`sqlite3_column_int` read, without its coins. -/
theorem export_import_loses_rows :
    nulMemo.Linked ∧ (importCoinControlData (some (exportCoinControlData 0 nulMemo))).run nulMemo =
      (.ok (), ⟨.empty, .empty, [⟨"T:0", "a", 0⟩]⟩) ∧
    bigTagId.Linked ∧
      (importCoinControlData (some (exportCoinControlData 0 bigTagId))).run bigTagId =
      (.ok (), ⟨⟨[⟨-2147483648, "t", "c"⟩], []⟩, .empty, []⟩) :=
  ⟨⟨by decide, by decide⟩, rfl, ⟨by decide, by decide⟩, rfl⟩

end Nunchuk
