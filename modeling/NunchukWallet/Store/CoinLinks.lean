import NunchukWallet.Store.CoinImport

/-!
# Join rows that name a tag or a collection, over every run of the writers

No coin-control table declares a foreign key, so whether every COINTAGS row names a tag and every
COINCOLLECTIONS row a collection depends on the writers alone. The deletes take the join rows of
the deleted id with them, and the import inserts a coin only under the tag or collection it has
just upserted, even when it throws halfway. `AddToCoinTag` and `AddToCoinCollection` insert the
pair they are given, and do not look the id up.

* `TableM.Preserves`          every run of statements keeps an invariant, whether it returns or
                              throws;
* `CoinControlOp`, `runCoinControlOps`   the calls of the writers, and sequences of them;
* `linked_run`                one call keeps every join row linked, unless it adds a coin to an id
                              that is not a tag (or a collection);
* `linked_of_namesRows`       every run from empty tables whose calls add coins only to tags and
                              collections that exist keeps every join row linked;
* `addToCoinTag_dangling`     one call of `AddToCoinTag` on empty tables leaves a join row that
                              names no tag.
-/

namespace Nunchuk

/-! ## invariants of statements -/

namespace TableM
variable {σ α β : Type}

/-- every run of `x` from a state in `P` ends in `P`, whether it returns or throws -/
def Preserves (P : σ → Prop) (x : TableM σ α) : Prop := ∀ s, P s → P (x.run s).2

variable {P : σ → Prop}

theorem preserves_pure (a : α) : Preserves P (pure a : TableM σ α) := fun _ h => h

theorem Preserves.bind {x : TableM σ α} {f : α → TableM σ β} (hx : Preserves P x)
    (hf : ∀ a, Preserves P (f a)) : Preserves P (x >>= f) := by
  intro s h
  rw [run_bind]
  rcases hr : x.run s with ⟨_ | a, s'⟩
  · have := hx s h; rwa [hr] at this
  · have := hx s h; rw [hr] at this; exact hf a s' this

theorem preserves_read (x : Except StoreError α) : Preserves P (read x : TableM σ α) :=
  fun _ h => h

theorem preserves_modify {f : σ → σ} (hf : ∀ s, P s → P (f s)) :
    Preserves P (modify f : TableM σ Unit) :=
  fun s h => hf s h

theorem run_exec (f : σ → Except StoreError σ) (s : σ) :
    (exec f).run s = match f s with
      | .ok s' => (.ok (), s')
      | .error e => (.error e, s) := rfl

/-- a statement that keeps `P` where it succeeds -/
theorem preserves_exec {f : σ → Except StoreError σ} (hf : ∀ s s', P s → f s = .ok s' → P s') :
    Preserves P (exec f) := by
  intro s h
  rw [run_exec]
  rcases hs : f s with e | s'
  · exact h
  · exact hf s s' h hs

/-- a statement that leads into a stronger invariant `Q`, kept by the rest of the run -/
theorem preserves_exec_bind {Q : σ → Prop} {f : σ → Except StoreError σ} {g : Unit → TableM σ β}
    (hf : ∀ s s', P s → f s = .ok s' → Q s') (hQ : ∀ s, Q s → P s) (hg : Preserves Q (g ())) :
    Preserves P (exec f >>= g) := by
  intro s h
  rw [run_bind, run_exec]
  rcases hs : f s with e | s'
  · exact h
  · exact hQ _ (hg s' (hf s s' h hs))

theorem run_modify_bind (f : σ → σ) (g : Unit → TableM σ β) (s : σ) :
    (modify f >>= g).run s = (g ()).run (f s) := rfl

end TableM

/-! ## the import keeps every join row linked -/

section
variable {α : Type} (readData : Json → Except StoreError α)

theorem preserves_importMembers (id : Int) :
    ∀ js : List Json, TableM.Preserves (fun t : Labels α => t.Linked ∧ id ∈ t.ids)
      (importMembers id js)
  | [] => TableM.preserves_pure _
  | _ :: js =>
    (TableM.preserves_read _).bind fun _ =>
      (TableM.preserves_exec fun _ _ h hi => by
        obtain ⟨hl, hrows⟩ := Labels.linked_insertMember h.1 h.2 hi
        exact ⟨hl, by rw [Labels.ids, hrows]; exact h.2⟩).bind fun _ =>
      preserves_importMembers id js

theorem preserves_importLabel (j : Json) :
    TableM.Preserves Labels.Linked (importLabel readData j) :=
  (TableM.preserves_read _).bind fun _ => (TableM.preserves_read _).bind fun _ =>
    (TableM.preserves_read _).bind fun _ =>
      TableM.preserves_exec_bind (fun _ _ h hu => Labels.linked_upsertRow h hu)
        (fun _ h => h.1) ((TableM.preserves_read _).bind fun _ => preserves_importMembers _ _)

theorem preserves_importLabels :
    ∀ js : List Json, TableM.Preserves Labels.Linked (importLabels readData js)
  | [] => TableM.preserves_pure _
  | j :: js => (preserves_importLabel readData j).bind fun _ => preserves_importLabels js

end

theorem preserves_onTags {β : Type} {x : TableM (Labels String) β}
    (hx : TableM.Preserves Labels.Linked x) : TableM.Preserves CoinControl.Linked (onTags x) :=
  fun cc h => ⟨hx cc.tags h.1, h.2⟩

theorem preserves_onCollections {β : Type} {x : TableM (Labels CollectionSettings) β}
    (hx : TableM.Preserves Labels.Linked x) :
    TableM.Preserves CoinControl.Linked (onCollections x) :=
  fun cc h => ⟨h.1, hx cc.collections h.2⟩

theorem preserves_importCoinInfo :
    ∀ js : List Json, TableM.Preserves CoinControl.Linked (importCoinInfo js)
  | [] => TableM.preserves_pure _
  | _ :: js =>
    (TableM.preserves_read _).bind fun _ => (TableM.preserves_read _).bind fun _ =>
      (TableM.preserves_read _).bind fun _ =>
        TableM.Preserves.bind (TableM.preserves_modify fun _ h => h) fun _ =>
          preserves_importCoinInfo js

/-- every import of a text that parses leaves every join row linked, whether it returns or
throws, from any tables: it empties them first, and inserts a coin only under the row it has just
upserted -/
theorem linked_importCoinControlData (data : Json) (cc : CoinControl) :
    ((importCoinControlData (some data)).run cc).2.Linked := by
  rw [importCoinControlData,
    TableM.run_read_ok_bind (show parseDocument (some data) = .ok data from rfl),
    TableM.run_modify_bind]
  exact ((TableM.preserves_read _).bind fun _ =>
    (preserves_onTags (preserves_importLabels tagData _)).bind fun _ =>
      (TableM.preserves_read _).bind fun _ =>
        (preserves_onCollections (preserves_importLabels collectionData _)).bind fun _ =>
          (TableM.preserves_read _).bind fun _ => preserves_importCoinInfo _)
    _ ⟨Labels.linked_empty, Labels.linked_empty⟩

/-! ## runs of the writers -/

/-- a call of a coin-control writer of `NunchukWalletDb` -/
inductive CoinControlOp where
  | createCoinTag (name color : String)
  | updateCoinTag (id : Int) (name color : String)
  | deleteCoinTag (tagId : Int)
  | addToCoinTag (tagId : Int) (txId : TxId) (vout : Int)
  | removeFromCoinTag (tagId : Int) (txId : TxId) (vout : Int)
  | createCoinCollection (name : String)
  | updateCoinCollection (id : Int) (name : String) (settings : CollectionSettings)
  | deleteCoinCollection (collectionId : Int)
  | addToCoinCollection (collectionId : Int) (txId : TxId) (vout : Int)
  | removeFromCoinCollection (collectionId : Int) (txId : TxId) (vout : Int)
  | importCoinControlData (parsed : Option Json)
  | updateCoinMemo (txId : TxId) (vout : Int) (memo : String)
  | lockCoin (txId : TxId) (vout : Int)
  | unlockCoin (txId : TxId) (vout : Int)

/-- the tables after a writer that returns its result with them, or throws having written
nothing -/
def afterCall {β : Type} (cc : CoinControl) : Except StoreError (β × CoinControl) → CoinControl
  | .ok (_, cc') => cc'
  | .error _ => cc

/-- the tables after one call; the import keeps what it wrote before a throw -/
def CoinControlOp.run (cc : CoinControl) : CoinControlOp → CoinControl
  | .createCoinTag n c => afterCall cc (Nunchuk.createCoinTag cc n c)
  | .updateCoinTag i n c => afterCall cc (Nunchuk.updateCoinTag cc i n c)
  | .deleteCoinTag i => (Nunchuk.deleteCoinTag cc i).2
  | .addToCoinTag i t v => (Nunchuk.addToCoinTag cc i t v).2
  | .removeFromCoinTag i t v => (Nunchuk.removeFromCoinTag cc i t v).2
  | .createCoinCollection n => afterCall cc (Nunchuk.createCoinCollection cc n)
  | .updateCoinCollection i n s => afterCall cc (Nunchuk.updateCoinCollection cc i n s)
  | .deleteCoinCollection i => (Nunchuk.deleteCoinCollection cc i).2
  | .addToCoinCollection i t v => (Nunchuk.addToCoinCollection cc i t v).2
  | .removeFromCoinCollection i t v => (Nunchuk.removeFromCoinCollection cc i t v).2
  | .importCoinControlData d => ((Nunchuk.importCoinControlData d).run cc).2
  | .updateCoinMemo t v m => Nunchuk.updateCoinMemo cc t v m
  | .lockCoin t v => Nunchuk.lockCoin cc t v
  | .unlockCoin t v => Nunchuk.unlockCoin cc t v

def runCoinControlOps (cc : CoinControl) (ops : List CoinControlOp) : CoinControl :=
  ops.foldl CoinControlOp.run cc

/-- the call adds a coin only to a tag or a collection that exists -/
def CoinControlOp.namesRow (cc : CoinControl) : CoinControlOp → Bool
  | .addToCoinTag i _ _ => cc.tags.ids.contains i
  | .addToCoinCollection i _ _ => cc.collections.ids.contains i
  | _ => true

/-- every call of the run adds coins only to tags and collections that exist when it is made -/
def namesRows : CoinControl → List CoinControlOp → Bool
  | _, [] => true
  | cc, op :: ops => op.namesRow cc && namesRows (op.run cc) ops

theorem linked_afterCall_tags {β : Type} {cc : CoinControl} (h : cc.Linked)
    {x : Except StoreError (β × Labels String)} (hx : ∀ b t, x = .ok (b, t) → t.Linked) :
    (afterCall cc (x.map fun (b, t) => (b, { cc with tags := t }))).Linked := by
  rcases hr : x with e | ⟨b, t⟩
  · exact h
  · exact ⟨hx b t hr, h.2⟩

theorem linked_afterCall_collections {β : Type} {cc : CoinControl} (h : cc.Linked)
    {x : Except StoreError (β × Labels CollectionSettings)}
    (hx : ∀ b t, x = .ok (b, t) → t.Linked) :
    (afterCall cc (x.map fun (b, t) => (b, { cc with collections := t }))).Linked := by
  rcases hr : x with e | ⟨b, t⟩
  · exact h
  · exact ⟨h.1, hx b t hr⟩

/-- One call keeps every join row linked, unless it adds a coin to an id that names no row. -/
theorem linked_run {cc : CoinControl} (h : cc.Linked) :
    ∀ {op : CoinControlOp}, op.namesRow cc = true → (op.run cc).Linked
  | .createCoinTag .., _ => linked_afterCall_tags h fun _ _ => Labels.linked_create h.1
  | .updateCoinTag .., _ => linked_afterCall_tags h fun _ _ => Labels.linked_update h.1
  | .deleteCoinTag i, _ => ⟨Labels.linked_delete h.1 i, h.2⟩
  | .addToCoinTag .., hop => ⟨Labels.linked_addTo h.1 _ (List.mem_of_elem_eq_true hop), h.2⟩
  | .removeFromCoinTag .., _ => ⟨Labels.linked_removeFrom h.1 _ _, h.2⟩
  | .createCoinCollection .., _ =>
    linked_afterCall_collections h fun _ _ => Labels.linked_create h.2
  | .updateCoinCollection .., _ =>
    linked_afterCall_collections h fun _ _ => Labels.linked_update h.2
  | .deleteCoinCollection i, _ => ⟨h.1, Labels.linked_delete h.2 i⟩
  | .addToCoinCollection .., hop =>
    ⟨h.1, Labels.linked_addTo h.2 _ (List.mem_of_elem_eq_true hop)⟩
  | .removeFromCoinCollection .., _ => ⟨h.1, Labels.linked_removeFrom h.2 _ _⟩
  | .importCoinControlData none, _ => h
  | .importCoinControlData (some d), _ => linked_importCoinControlData d cc
  | .updateCoinMemo .., _ => h
  | .lockCoin .., _ => h
  | .unlockCoin .., _ => h

theorem linked_runCoinControlOps :
    ∀ (ops : List CoinControlOp) {cc : CoinControl}, cc.Linked → namesRows cc ops = true →
      (runCoinControlOps cc ops).Linked
  | [], _, h, _ => h
  | op :: ops, _, h, hn => by
    rw [namesRows, Bool.and_eq_true] at hn
    exact linked_runCoinControlOps ops (linked_run h hn.1) hn.2

/-- In every state reached from empty tables by calls that add coins only to tags and collections
that exist when they are made, every COINTAGS row names a TAGS row and every COINCOLLECTIONS row a
COLLECTIONS row. -/
theorem linked_of_namesRows (ops : List CoinControlOp)
    (h : namesRows CoinControl.empty ops = true) : (runCoinControlOps CoinControl.empty ops).Linked :=
  linked_runCoinControlOps ops ⟨Labels.linked_empty, Labels.linked_empty⟩ h

theorem create_then_tag_linked :
    namesRows CoinControl.empty [.createCoinTag "savings" "#00ff00", .addToCoinTag 1 "T" 0] = true ∧
      (runCoinControlOps CoinControl.empty
        [.createCoinTag "savings" "#00ff00", .addToCoinTag 1 "T" 0]).Linked :=
  ⟨by decide, linked_of_namesRows _ (by decide)⟩

/-- `AddToCoinTag(1, "T", 0)` on empty tables: the row `("T:0", 1)` names no tag -/
theorem addToCoinTag_dangling :
    ¬(runCoinControlOps CoinControl.empty [.addToCoinTag 1 "T" 0]).Linked := by
  decide

end Nunchuk
