import Mathlib.Data.List.Nodup
import NunchukWallet.Sync.NewAddress

/-!
# `NewAddress` ends on a fresh index without activity

`Synchronizer::NewAddress` probes forward from the index after the current one until a lookahead
finds no activity. When the server reports activity for finitely many addresses of the branch,
the probes end. The sequential probe moves on only past an address with activity. The batched
probe moves on by a whole window only when the last address of the window has activity. The
index returned is above the current index before the call, its address has no activity, and it
is the current index after the call. Activity is read on addresses no row holds yet, which is
why the rows must be derived and the derivation and the scripthash injective.

* `Triple P x Q`       partial correctness of a synchronizer step: a run from a world of `P` that
                       returns `a` ends in a world of `Q a`;
* `Below w internal B shs`   the rows and cached entries stay derived, every row of the branch is
                       below `B`, and each scripthash of `shs` is subscribed to an address of the
                       branch below `B`;
* `triple_lookAhead`, `triple_batchLookAhead`   what a probe learns of the activity, and the rows
                       it leaves;
* `triple_probe`, `triple_runCall_probe`, `triple_runCall_start`   one probe of `NewAddress` ends
                       the search or moves on past an address with activity, so from `n` a run
                       of `N - n + 2` steps ends, and a whole call two steps more;
* `batchLookAhead_reads_past_indexes`   a subscription answer with a scripthash that was not
                       requested makes the loop read past the indexes of the window;
* `Returns x Q`       a run of `x` from any world returns, with a value of `Q`;
* `returns_runCall`    on a server without activity on the branch, a call returns;
* `newAddress_returns_fresh_index`   after enough steps `NewAddress` has returned a fresh index
                       without activity, which is then the current index, or thrown, which needs
                       an address of the branch with activity;
* `newAddress_throws_on_failed_fetch`   a server with one active address that fails a transaction
                       request makes `NewAddress` throw for any number of steps.
-/

namespace Nunchuk

/-! ## triples -/

/-- a run of `x` from a world of `P` that returns `a` ends in a world of `Q a` -/
def Triple {α : Type} (P : SyncWorld → Prop) (x : SyncM α) (Q : α → SyncWorld → Prop) : Prop :=
  ∀ wd, P wd → ∀ a wd', x.run wd = (.ok a, wd') → Q a wd'

namespace Triple
variable {α β : Type} {P P' : SyncWorld → Prop} {Q Q' : α → SyncWorld → Prop}

theorem ret {a : α} (h : ∀ wd, P wd → Q a wd) : Triple P (Pure.pure a : SyncM α) Q :=
  fun _ hp _ _ hr => by
    simp only [SyncM.run_pure, Prod.mk.injEq, Except.ok.injEq] at hr
    obtain ⟨rfl, rfl⟩ := hr
    exact h _ hp

theorem read : Triple P (get : SyncM SyncWorld) fun a wd => a = wd ∧ P wd := fun _ h _ _ hr => by
  simp only [SyncM.run_get, Prod.mk.injEq, Except.ok.injEq] at hr
  obtain ⟨rfl, rfl⟩ := hr
  exact ⟨rfl, h⟩

theorem update {f : SyncWorld → SyncWorld} {R : SyncWorld → Prop} (h : ∀ wd, P wd → R (f wd)) :
    Triple P (modify f : SyncM Unit) fun _ => R := fun _ hp _ _ hr => by
  simp only [SyncM.run_modify, Prod.mk.injEq, Except.ok.injEq] at hr
  obtain ⟨rfl, rfl⟩ := hr
  exact h _ hp

theorem bind {R : β → SyncWorld → Prop} {x : SyncM α} {f : α → SyncM β} (hx : Triple P x Q)
    (hf : ∀ a, Triple (Q a) (f a) R) : Triple P (x >>= f) R := fun wd h _ _ hr => by
  obtain ⟨a, wd', h₁, h₂⟩ := SyncM.run_bind_eq_ok hr
  exact hf a wd' (hx wd h a wd' h₁) _ _ h₂

theorem pure_bind {R : β → SyncWorld → Prop} {a : α} {f : α → SyncM β} (h : Triple P (f a) R) :
    Triple P (Pure.pure a >>= f) R := h

/-- the world a run starts from, as a hypothesis -/
theorem pre {x : SyncM α} (h : ∀ v, P v → Triple (· = v) x Q) : Triple P x Q :=
  fun wd hp => h wd hp wd rfl

theorem conseq {x : SyncM α} (h : Triple P x Q) (hP : ∀ wd, P' wd → P wd)
    (hQ : ∀ a wd, Q a wd → Q' a wd) : Triple P' x Q' :=
  fun wd hp a wd' hr => hQ a wd' (h wd (hP wd hp) a wd' hr)

/-- `UpdateTransactions` in the synchronizer writes the VTX table and the notifications only -/
theorem lift (w : WalletDescriptor) (x : AddressMap → TxM α)
    (hP : ∀ wd v n, P wd → P { wd with store := { wd.store with vtx := v }, notes := n }) :
    Triple P (liftTx w x) fun _ => P := fun wd h _ _ hr => by
  obtain rfl : ((liftTx w x).run wd).2 = _ := congrArg Prod.snd hr
  exact hP _ _ _ h

end Triple

/-! ## calls that return -/

/-- every run of `x` returns, with a value of `Q`: what `Triple` leaves out -/
def Returns {α : Type} (x : SyncM α) (Q : α → Prop) : Prop :=
  ∀ wd, ∃ a wd', x.run wd = (.ok a, wd') ∧ Q a

namespace Returns
variable {α β : Type} {Q : α → Prop}

theorem ret {a : α} (h : Q a) : Returns (Pure.pure a : SyncM α) Q := fun wd => ⟨a, wd, rfl, h⟩

theorem read : Returns (get : SyncM SyncWorld) fun _ => True := fun wd => ⟨wd, wd, rfl, trivial⟩

theorem update (f : SyncWorld → SyncWorld) : Returns (modify f : SyncM Unit) fun _ => True :=
  fun wd => ⟨(), f wd, rfl, trivial⟩

theorem bind {P : α → Prop} {R : β → Prop} {x : SyncM α} {f : α → SyncM β} (hx : Returns x P)
    (hf : ∀ a, P a → Returns (f a) R) : Returns (x >>= f) R := fun wd => by
  obtain ⟨a, wd', hr, ha⟩ := hx wd
  obtain ⟨c, wd'', hr', hc⟩ := hf a ha wd'
  exact ⟨c, wd'', by rw [SyncM.run_bind, hr]; exact hr', hc⟩

theorem pure_bind {R : β → Prop} {a : α} {f : α → SyncM β} (h : Returns (f a) R) :
    Returns (Pure.pure a >>= f) R := h

end Returns

/-! ## rows below a bound -/

theorem maxIndex_lt {l : List Int} {B : Int} (h : ∀ x ∈ l, x < B) (hB : -1 < B) :
    maxIndex l < B := by
  cases l with
  | nil => exact hB
  | cons i is => exact h _ (foldl_max_mem i is)

theorem getCurrentAddressIndex_setAddress_lt {t : AddressTable} {a : Address} {i B : Int}
    {b b' : Bool} {u : String} (ht : getCurrentAddressIndex t b < B) (hi : i < B)
    (hB : -1 < B) : getCurrentAddressIndex (setAddress a i b' u t) b < B := by
  refine maxIndex_lt (fun x hx => ?_) hB
  obtain ⟨e, he, hb, rfl⟩ := mem_indices.mp hx
  rcases mem_setAddress he with he | ⟨-, ⟨h1, -⟩ | ⟨e₀, he₀, -, h1, h2⟩⟩
  · have := index_le_getCurrentAddressIndex he
    rw [hb] at this
    omega
  · omega
  · have := index_le_getCurrentAddressIndex he₀
    rw [← h2, hb] at this
    omega

/-- `AddAddress` writes an empty status: an address without a status keeps none -/
theorem getAddressStatus_setAddress_empty {t : AddressTable} {a a' : Address} {i : Int} {b : Bool}
    (h : getAddressStatus t a' = "") : getAddressStatus (setAddress a i b "" t) a' = "" := by
  unfold getAddressStatus setAddress at *
  rw [Dict.get?_upsert]
  by_cases hk : a = a'
  · rw [if_pos hk]; rfl
  · rw [if_neg hk]; exact h

section
variable {w : WalletDescriptor} (hne : w.escrow = false)
  (hinj : ∀ b j b' j', w.derive b j = w.derive b' j' → b = b' ∧ j = j')
include hinj

/-- an address of the branch above the current index has no row -/
theorem get?_fresh {t : AddressTable} (hd : RowsDerived w t) {internal : Bool} {n : Nat}
    (hcur : getCurrentAddressIndex t internal < n) : t.get? (w.derive internal n) = none := by
  cases hr : t.get? (w.derive internal n) with
  | none => rfl
  | some r =>
    have he := Dict.mem_of_findEntry hr
    obtain ⟨j, hj, ha⟩ := hd _ he
    obtain ⟨hb, rfl⟩ := hinj _ _ _ _ ha
    have := index_le_getCurrentAddressIndex he
    simp only at this hj hb
    rw [← hb] at this
    omega

/-- so it has no stored status -/
theorem getAddressStatus_fresh {t : AddressTable} (hd : RowsDerived w t) {internal : Bool}
    {n : Nat} (hcur : getCurrentAddressIndex t internal < n) :
    getAddressStatus t (w.derive internal n) = "" := by
  unfold getAddressStatus
  rw [get?_fresh hinj hd hcur]

end

/-- `AddAddress` of an address without a row takes the current index of its branch to at least
its index -/
theorem le_getCurrentAddressIndex_setAddress {t : AddressTable} {a : Address} {i : Int} {b : Bool}
    {u : String} (h : t.get? a = none) : i ≤ getCurrentAddressIndex (setAddress a i b u t) b := by
  have hr : (setAddress a i b u t).get? a = some ⟨i, b, !u.isEmpty, u⟩ := by
    unfold setAddress
    rw [Dict.get?_upsert, if_pos rfl, h]
    rfl
  exact (index_le_getCurrentAddressIndex (Dict.mem_of_findEntry hr) :)

section
variable (w : WalletDescriptor) (internal : Bool)

/-- the rows and cached entries are derived, every row of the branch is below `B`, and each
scripthash of `shs` is subscribed to an address of the branch below `B` -/
structure Below (B : Int) (shs : List String) (wd : SyncWorld) : Prop where
  exact : Exact w wd.store
  cur : getCurrentAddressIndex wd.store.address internal < B
  sub : ∀ sh ∈ shs, ∀ a, wd.subscribed.get? sh = some a →
    ∃ k : Nat, (k : Int) < B ∧ a = w.derive internal k

end

namespace Below
variable {w : WalletDescriptor} {internal : Bool} {B : Int} {shs : List String} {wd : SyncWorld}

theorem neg_one_lt (h : Below w internal B shs wd) : -1 < B :=
  Int.lt_of_le_of_lt (neg_one_le_getCurrentAddressIndex h.exact.rows.nonneg internal) h.cur

theorem mono {B' : Int} (h : Below w internal B shs wd) (hB : B ≤ B') : Below w internal B' shs wd :=
  ⟨h.exact, by have := h.cur; omega, fun sh hsh a ha => by
    obtain ⟨k, hk, rfl⟩ := h.sub sh hsh a ha; exact ⟨k, by omega, rfl⟩⟩

/-- a change of the VTX table and the notifications -/
theorem vtx (h : Below w internal B shs wd) (v : Vtx) (n : List (TxId × TransactionStatus)) :
    Below w internal B shs { wd with store := { wd.store with vtx := v }, notes := n } :=
  ⟨⟨h.exact.rows, h.exact.cache⟩, h.cur, h.sub⟩

theorem addAddress (hne : w.escrow = false) (h : Below w internal B shs wd) {j : Nat}
    (hj : (j : Int) < B) :
    Below w internal B shs
      { wd with store := Nunchuk.addAddress w (w.derive internal j) j internal wd.store } where
  exact := exact_addAddress hne h.exact internal j
  cur := by
    show getCurrentAddressIndex (Nunchuk.addAddress w _ _ _ _).address internal < B
    rw [addAddress_address]
    exact getCurrentAddressIndex_setAddress_lt h.cur hj h.neg_one_lt
  sub := h.sub

theorem setUtxos (hne : w.escrow = false)
    (hinj : ∀ b j b' j', w.derive b j = w.derive b' j' → b = b' ∧ j = j')
    (h : Below w internal B shs wd) {j : Nat} (hj : (j : Int) < B) (u : String) :
    Below w internal B shs { wd with store := (Nunchuk.setUtxos w (w.derive internal j) u wd.store).2 } where
  exact := exact_setUtxos hne h.exact _ _
  cur := by
    show getCurrentAddressIndex (Nunchuk.setUtxos w _ _ _).2.address internal < B
    rw [setUtxos_eq]
    dsimp only
    split
    · rw [getAllAddressData_address]; exact h.cur
    · next d hd =>
      obtain ⟨j', hj', ha⟩ := (exact_getAllAddressData hne h.exact).2 _ d hd
      obtain ⟨-, rfl⟩ := hinj _ _ _ _ ha
      rw [getAllAddressData_address]
      exact getCurrentAddressIndex_setAddress_lt h.cur (hj' ▸ hj) h.neg_one_lt
  sub := h.sub

end Below

theorem Below.drop {w : WalletDescriptor} {internal : Bool} {B : Int} {shs : List String}
    {wd : SyncWorld} (h : Below w internal B shs wd) : Below w internal B [] wd :=
  ⟨h.exact, h.cur, nofun⟩

theorem Below.append {w : WalletDescriptor} {internal : Bool} {B : Int} {shs : List String}
    {wd : SyncWorld} (h : Below w internal B shs wd) {sh : String} {k : Nat} (hk : (k : Int) < B)
    (hs : wd.subscribed.get? sh = some (w.derive internal k)) : Below w internal B (shs ++ [sh]) wd :=
  ⟨h.exact, h.cur, fun s hsh a ha => by
    rcases List.mem_append.mp hsh with hsh | hsh
    · exact h.sub s hsh a ha
    · rw [List.mem_singleton.mp hsh, hs] at ha
      exact ⟨k, hk, (Option.some.inj ha).symm⟩⟩

/-! ## the sequential probe -/

theorem triple_subscribeAddress {w : WalletDescriptor} {internal : Bool} (b : Backend) {B : Int}
    (a : Address) :
    Triple (Below w internal B []) (subscribeAddress b a) fun r wd =>
      r = (b.scripthash a, b.status (b.scripthash a)) ∧ Below w internal B [] wd ∧
        wd.subscribed.get? (b.scripthash a) = some a := fun wd h r wd' hr => by
  have hrun : (subscribeAddress b a).run wd = (.ok (b.scripthash a, b.status (b.scripthash a)),
      { wd with subscribed := wd.subscribed.set (b.scripthash a) a }) := rfl
  rw [hrun, Prod.mk.injEq, Except.ok.injEq] at hr
  obtain ⟨rfl, rfl⟩ := hr
  exact ⟨rfl, ⟨h.exact, h.cur, nofun⟩, by simp⟩


section
variable {w : WalletDescriptor} (m : Nat) (b : Backend) (ready : Bool) {internal : Bool}
  (hne : w.escrow = false) (hinj : ∀ b j b' j', w.derive b j = w.derive b' j' → b = b' ∧ j = j')
include hne hinj

theorem triple_storeStatus {B : Int} {shs : List String} {k : Nat} (hk : (k : Int) < B)
    (status : String) :
    Triple (Below w internal B shs) (storeStatus w (w.derive internal k) status)
      fun _ => Below w internal B shs :=
  .update fun _ h => h.setUtxos hne hinj hk _

theorem triple_updateScripthashStatus {B : Int} (sh status : String) :
    Triple (Below w internal B [sh]) (updateScripthashStatus w m b ready sh status)
      fun _ => Below w internal B [sh] := by
  unfold updateScripthashStatus
  dsimp only
  split
  · exact .ret fun _ h => h
  · refine .pure_bind (.bind .read fun wd => ?_)
    split
    · exact .ret fun _ h => h.2
    · next a ha =>
      refine .pre fun v ⟨hv, hB⟩ => ?_
      subst hv
      obtain ⟨k, hk, rfl⟩ := hB.sub sh (List.mem_singleton_self _) a ha
      refine .conseq (.bind (.lift w _ fun _ _ _ h => h.vtx _ _) fun ok => ?_)
        (fun _ h => h ▸ hB) fun _ _ h => h
      split
      · exact triple_storeStatus hne hinj hk _
      · exact .ret fun _ h => h

theorem triple_multiUpdate {B : Int} {shs : List String} (rawtx : Dict TxId Payload)
    (statusOf : String → String) :
    ∀ shs', (∀ sh ∈ shs', sh ∈ shs) →
      Triple (Below w internal B shs) (multiUpdate w m b ready rawtx statusOf shs')
        fun _ => Below w internal B shs
  | [], _ => .ret fun _ h => h
  | sh :: shs', hs => by
    have ih : Triple (Below w internal B shs) _ _ :=
      triple_multiUpdate rawtx statusOf shs' fun s h => hs s (List.mem_cons_of_mem _ h)
    refine .bind .read fun wd => .pre fun v ⟨hv, hB⟩ => ?_
    subst hv
    split
    · exact ih.conseq (fun _ h => h ▸ hB) fun _ _ h => h
    · next a ha =>
      obtain ⟨k, hk, rfl⟩ := hB.sub sh (hs sh (List.mem_cons_self _ _)) a ha
      refine .conseq (.bind (.lift w _ fun _ _ _ h => h.vtx _ _) fun ok => ?_)
        (fun _ h => h ▸ hB) fun _ _ h => h
      dsimp only
      split
      · exact .bind (triple_storeStatus hne hinj hk _) fun _ => ih
      · exact .pure_bind ih

theorem triple_updateScripthashesStatus {B : Int} (shs sts : List String) :
    Triple (Below w internal B shs) (updateScripthashesStatus w m b ready shs sts)
      fun _ => Below w internal B shs := by
  unfold updateScripthashesStatus
  dsimp only
  split
  · exact .ret fun _ h => h
  · exact .pure_bind (.bind .read fun _ => (triple_multiUpdate m b ready hne hinj _ _ _
      fun _ h => h).conseq (fun _ h => h.2) fun _ _ h => h)

/-- `LookAhead` of the address at `n`, above the current index: `false` when the server reports no
activity for it, with no row written; `true` when it reports some, with rows up to `n` -/
theorem triple_lookAhead (n : Nat) :
    Triple (Below w internal n []) (lookAhead w m b ready true (w.derive internal n) n internal)
      fun ok wd => (ok = true → (b.status (b.scripthash (w.derive internal n))).isEmpty = false ∧
          Below w internal (n + 1) [] wd) ∧
        (ok = false → (b.status (b.scripthash (w.derive internal n))).isEmpty = true ∧
          Below w internal n [] wd) := by
  unfold lookAhead
  simp only [Bool.not_true, Bool.false_eq_true, if_false]
  refine .bind (triple_subscribeAddress b _) fun r => ?_
  refine .pre fun v ⟨hr, hB, hs⟩ => ?_
  subst hr
  refine .bind .read fun wd => .pre fun v' ⟨hv, hv'⟩ => ?_
  subst hv hv'
  have hprev := getAddressStatus_fresh hinj hB.exact.rows hB.cur
  dsimp only
  rw [hprev]
  by_cases hst : (b.status (b.scripthash (w.derive internal n))).isEmpty = true
  · rw [if_pos (by rw [hst]; rfl)]
    exact .ret fun _ h => ⟨nofun, fun _ => ⟨hst, h ▸ hB⟩⟩
  · rw [Bool.not_eq_true] at hst
    rw [if_neg (by rw [hst]; exact Bool.false_ne_true), if_pos fun h => by rw [h] at hst; cases hst]
    refine .bind (show Triple _ (modify _) fun _ =>
        Below w internal (n + 1) [b.scripthash (w.derive internal n)] from
      .update fun _ h => ?_) fun _ => .bind (triple_updateScripthashStatus m b ready hne hinj _ _)
        fun _ => .ret fun _ h => ⟨fun _ => ⟨hst, h.drop⟩, nofun⟩
    subst h
    exact ((hB.mono (by omega)).append (by omega) hs).addAddress hne (by omega)

end

/-! ## the batched probe -/

section
variable {w : WalletDescriptor} (n g : Nat) {internal : Bool}

theorem window_getD {k : Nat} (hk : k < g) :
    ((List.range g).map fun k : Nat => (n : Int) + k).getD k 0 = n + k := by
  simp [hk]

theorem window_addresses (hne : w.escrow = false) :
    ((List.range g).map fun k : Nat => (n : Int) + k).map (addressAt w internal) =
      (List.range g).map fun k => w.derive internal (n + k) := by
  simp only [List.map_map, Function.comp_def, addressAt, hne, Bool.false_eq_true, if_false]
  rfl

theorem window_indexOf (hinj : ∀ b j b' j', w.derive b j = w.derive b' j' → b = b' ∧ j = j')
    {k : Nat} (hk : k < g) :
    ((List.range g).map fun k => w.derive internal (n + k)).indexOf (w.derive internal (n + k)) =
      k := by
  have hnd : ((List.range g).map fun k => w.derive internal (n + k)).Nodup :=
    List.Nodup.map (fun a c h => by have := (hinj _ _ _ _ h).2; omega) (List.nodup_range g)
  have := List.indexOf_getElem hnd k (by simpa using hk)
  simpa using this

end

section
variable {w : WalletDescriptor} (hne : w.escrow = false)
  (hinj : ∀ b j b' j', w.derive b j = w.derive b' j' → b = b' ∧ j = j')
  {internal : Bool} {n g : Nat} {sub : Dict String Address}
include hne hinj

/-- The loop of `BatchLookAhead` over a window from `n` above the current index, whose addresses
have no stored status. Each subscription with a status records its address, at a position the
returned `last` covers; `last` is the position of one of them, or stays. -/
theorem triple_batchLookAheadLoop :
    ∀ (subs : List (String × String)) (last : Int) (shs sts : List String),
      (∀ p ∈ subs, ∃ k < g, sub.get? p.1 = some (w.derive internal (n + k))) →
      Triple (fun wd => Below w internal (n + last + 1) shs wd ∧ wd.subscribed = sub ∧
          ∀ k < g, getAddressStatus wd.store.address (w.derive internal (n + k)) = "")
        (batchLookAheadLoop w ((List.range g).map fun k => w.derive internal (n + k))
          ((List.range g).map fun k : Nat => (n : Int) + k) internal sub subs last shs sts)
        fun r wd => Below w internal (n + r.2.2 + 1) r.1 wd ∧ wd.subscribed = sub ∧
          last ≤ r.2.2 ∧
          (∀ p ∈ subs, p.2.isEmpty = false → ∃ k < g,
            sub.get? p.1 = some (w.derive internal (n + k)) ∧ (k : Int) ≤ r.2.2) ∧
          (r.2.2 = last ∨ ∃ p ∈ subs, p.2.isEmpty = false ∧ ∃ k < g,
            sub.get? p.1 = some (w.derive internal (n + k)) ∧ (k : Int) = r.2.2)
  | [], last, shs, sts, _ => .ret fun _ h => ⟨h.1, h.2.1, Int.le_refl _, nofun, .inl rfl⟩
  | (sh, status) :: subs, last, shs, sts, hsubs => by
    have ih := triple_batchLookAheadLoop subs
    have hsubs' := fun p hp => hsubs p (List.mem_cons_of_mem _ hp)
    obtain ⟨k, hk, hsh⟩ := hsubs (sh, status) (List.mem_cons_self _ _)
    unfold batchLookAheadLoop
    refine .bind .read fun wd => .pre fun v ⟨hv, hI⟩ => ?_
    subst hv
    simp only [hsh, Option.getD_some, window_indexOf n g hinj hk, hI.2.2 k hk,
      window_getD n g hk]
    by_cases hst : status.isEmpty = true
    · rw [if_pos (by rw [hst]; rfl)]
      refine (ih last shs sts hsubs').conseq (fun _ h => h ▸ hI)
        fun r _ ⟨hB, hs, hle, hA1, hA2⟩ => ⟨hB, hs, hle, fun p hp hp2 => ?_,
          hA2.imp_right fun ⟨p, hp, h⟩ => ⟨p, List.mem_cons_of_mem _ hp, h⟩⟩
      rcases List.mem_cons.mp hp with rfl | hp
      · rw [hst] at hp2; cases hp2
      · exact hA1 p hp hp2
    · rw [Bool.not_eq_true] at hst
      rw [if_neg (by rw [hst]; exact Bool.false_ne_true),
        if_pos fun h : status = "" => Bool.false_ne_true (hst.symm.trans (h ▸ rfl)),
        hst, Bool.not_false, if_pos rfl]
      set L : Int := if last < k then k else last with hL
      have hLk : last ≤ L ∧ (k : Int) ≤ L ∧ (L = last ∨ L = k) := by rw [hL]; split <;> omega
      refine .bind (show Triple _ (modify _) fun _ wd => Below w internal (n + L + 1) (shs ++ [sh]) wd ∧
          wd.subscribed = sub ∧
          ∀ k < g, getAddressStatus wd.store.address (w.derive internal (n + k)) = "" from
        .update fun _ h => ?_) fun _ => (ih L _ _ hsubs').conseq (fun _ h => h)
          fun r _ ⟨hB, hs, hle, hA1, hA2⟩ => ⟨hB, hs, Int.le_trans hLk.1 hle, fun p hp hp2 => ?_, ?_⟩
      · subst h
        refine ⟨((hI.1.mono (by omega)).append (by omega) (hI.2.1 ▸ hsh)).addAddress hne
          (by push_cast; omega), hI.2.1, fun j hj => ?_⟩
        show getAddressStatus (Nunchuk.addAddress w _ _ _ _).address _ = ""
        rw [addAddress_address]
        exact getAddressStatus_setAddress_empty (hI.2.2 j hj)
      · rcases List.mem_cons.mp hp with rfl | hp
        · exact ⟨k, hk, hsh, Int.le_trans hLk.2.1 hle⟩
        · exact hA1 p hp hp2
      · rcases hA2 with hr | ⟨p, hp, h⟩
        · rcases hLk.2.2 with hL' | hL'
          · exact .inl (hr.trans hL')
          · exact .inr ⟨_, List.mem_cons_self _ _, hst, k, hk, hsh, (hr.trans hL').symm⟩
        · exact .inr ⟨p, List.mem_cons_of_mem _ hp, h⟩

end

/-- with an injective key, the key of each value of the list holds that value once all are set -/
theorem Dict.get?_foldl_set_of_injective {K V : Type} [DecidableEq K] (f : V → K)
    (hf : ∀ v v', f v = f v' → v = v') {vs : List V} (m₀ : Dict K V) {v : V} (hv : v ∈ vs) :
    (vs.foldl (fun m v => m.set (f v) v) m₀).get? (f v) = some v := by
  induction vs generalizing m₀ with
  | nil => cases hv
  | cons a vs ih =>
    rw [List.foldl_cons]
    by_cases h : v ∈ vs
    · exact ih _ h
    · obtain rfl : v = a := (List.mem_cons.mp hv).resolve_right h
      rw [Dict.get?_foldl_set_of_not_mem f _ fun hm => ?_, Dict.get?_set, if_pos rfl]
      obtain ⟨v', hv', he⟩ := List.mem_map.mp hm
      exact h (hf _ _ he ▸ hv')

theorem triple_subscribeAddresses (b : Backend) (as : List Address) (v : SyncWorld) :
    Triple (· = v) (subscribeAddresses b as) fun r wd =>
      r = ((as.map b.scripthash).foldr insertSorted []).map (fun sh => (sh, b.status sh)) ∧
      wd = { v with subscribed := as.foldl (fun m a => m.set (b.scripthash a) a) v.subscribed } :=
  fun _ h _ _ hr => by
    subst h
    rw [subscribeAddresses_run, Prod.mk.injEq, Except.ok.injEq] at hr
    exact ⟨hr.1.symm, hr.2.symm⟩

section
variable {w : WalletDescriptor} (m : Nat) (b : Backend) (ready : Bool) {internal : Bool}
  (hne : w.escrow = false) (hinj : ∀ b j b' j', w.derive b j = w.derive b' j' → b = b' ∧ j = j')
  (hsh : ∀ a a', b.scripthash a = b.scripthash a' → a = a')
include hne hinj hsh

/-- `BatchLookAhead` of the window of `g` addresses from `n`, above the current index: the
position it answers covers every address of the window with activity, and is `-1` or the
position of one; the rows stay below the address after it -/
theorem triple_batchLookAhead (n g : Nat) :
    Triple (Below w internal n [])
      (batchLookAhead w m b ready true ((List.range g).map fun k => w.derive internal (n + k))
        ((List.range g).map fun k : Nat => (n : Int) + k) internal)
      fun last wd => Below w internal (n + last + 1) [] wd ∧
        (∀ k < g, (b.status (b.scripthash (w.derive internal (n + k)))).isEmpty = false →
          (k : Int) ≤ last) ∧
        (last = -1 ∨ ∃ k < g, (k : Int) = last ∧
          (b.status (b.scripthash (w.derive internal (n + k)))).isEmpty = false) := by
  unfold batchLookAhead
  simp only [Bool.not_true, Bool.false_eq_true, if_false]
  refine .pre fun v hB => .bind (triple_subscribeAddresses b _ v) fun subs =>
    .pre fun v' ⟨hs, hv'⟩ => ?_
  subst hs hv'
  set sh : Nat → String := fun k => b.scripthash (w.derive internal (n + k))
  have hmem : ∀ p ∈ ((((List.range g).map fun k => w.derive internal (n + k)).map
      b.scripthash).foldr insertSorted []).map (fun sh => (sh, b.status sh)),
      ∃ k < g, p = (sh k, b.status (sh k)) := fun p hp => by
    obtain ⟨s, hs, rfl⟩ := List.mem_map.mp hp
    obtain ⟨a, ha, rfl⟩ := List.mem_map.mp (mem_foldr_insertSorted.mp hs)
    obtain ⟨k, hk, rfl⟩ := List.mem_map.mp ha
    exact ⟨k, List.mem_range.mp hk, rfl⟩
  have hget : ∀ k < g, (((List.range g).map fun k => w.derive internal (n + k)).foldl
      (fun m a => m.set (b.scripthash a) a) v.subscribed).get? (sh k) =
        some (w.derive internal (n + k)) := fun k hk =>
    Dict.get?_foldl_set_of_injective _ hsh _ (List.mem_map.mpr ⟨k, List.mem_range.mpr hk, rfl⟩)
  have hk : ∀ k k' : Nat, w.derive internal (n + k) = w.derive internal (n + k') → k = k' :=
    fun _ _ h => by have := (hinj _ _ _ _ h).2; omega
  refine .bind .read fun wd => .pre fun v₂ ⟨hv, hv₂⟩ => ?_
  subst hv hv₂
  refine .bind ((triple_batchLookAheadLoop hne hinj _ (-1) [] [] fun p hp => ?_).conseq
    (fun _ h => ?_) fun _ _ h => h) fun r => .pre fun v₃ ⟨hB₃, _, _, hA1, hA2⟩ => ?_
  · obtain ⟨k, hk, rfl⟩ := hmem p hp
    exact ⟨k, hk, hget k hk⟩
  · subst h
    have hB' := hB.mono (show (n : Int) ≤ n + -1 + 1 by omega)
    exact ⟨⟨hB'.exact, hB'.cur, nofun⟩, rfl, fun k _ => getAddressStatus_fresh hinj hB.exact.rows
      (by have := hB.cur; omega)⟩
  refine .bind ((triple_updateScripthashesStatus m b ready hne hinj _ _).conseq (fun _ h => h ▸ hB₃)
    fun _ _ h => h) fun _ => .ret fun _ h => ⟨h.drop, fun k hk₁ hst => ?_, ?_⟩
  · obtain ⟨k', -, hs, hle⟩ := hA1 _ (List.mem_map.mpr ⟨sh k, mem_foldr_insertSorted.mpr
      (List.mem_map_of_mem _ (List.mem_map.mpr ⟨k, List.mem_range.mpr hk₁, rfl⟩)), rfl⟩) hst
    rw [hget k hk₁, Option.some.injEq] at hs
    exact hk _ _ hs ▸ hle
  · refine hA2.imp_right fun ⟨p, hp, hst, k, hk₁, hs, hle⟩ => ?_
    obtain ⟨k₂, hk₂, rfl⟩ := hmem p hp
    rw [hget k₂ hk₂, Option.some.injEq] at hs
    exact ⟨k, hk₁, hle, hk _ _ hs ▸ hst⟩

end

/-! ## an answer with a scripthash that was not requested -/

/-- The subscription answer for the window `["r"]` (indexes `[0]`) holds a scripthash `x` that
was not requested, with the status `s`. `scripthash_to_wallet_address_[x]` gives the empty address,
`std::find` gives the position 1, past the window, and the status differs from the empty one
stored, so the loop reads `indexes[1]`, which does not exist (the model reads the default 0
there): it records the empty address and answers 1 as the last position used. -/
theorem batchLookAhead_reads_past_indexes :
    (["r"] : List Address).indexOf
      (((Dict.empty.set "r" "r" : Dict String Address).get? "x").getD "") = 1 ∧
    ([0] : List Int)[1]? = none ∧
    ((batchLookAheadLoop unaryDescriptor ["r"] [0] false (Dict.empty.set "r" "r") [("x", "s")]
      (-1) [] [] |>.run freshWorld).1 |>.toOption) = some (["x"], ["s"], 1) ∧
    (batchLookAheadLoop unaryDescriptor ["r"] [0] false (Dict.empty.set "r" "r") [("x", "s")]
      (-1) [] [] |>.run freshWorld).2.store.address.get? "" = some ⟨0, false, false, ""⟩ := by
  decide

/-! ## the steps of a call -/

theorem runCall_succ (w : WalletDescriptor) (m : Nat) (b : Backend) (ready : Bool) (gap : Nat)
    (connected internal : Bool) (fuel : Nat) (pc : NewAddressPc) :
    runCall w m b ready gap connected internal (fuel + 1) pc =
      newAddressStep w m b ready gap connected internal pc >>=
        runCall w m b ready gap connected internal fuel := rfl

section
variable {w : WalletDescriptor} (m : Nat) (b : Backend) (ready : Bool) (gap : Nat)
  {connected internal : Bool}

/-- a returned call stays returned -/
theorem triple_runCall_done {P : SyncWorld → Prop} (r : Int) :
    ∀ fuel, Triple P (runCall w m b ready gap connected internal fuel (.done r))
      fun pc wd => pc = .done r ∧ P wd
  | 0 => .ret fun _ h => ⟨rfl, h⟩
  | fuel + 1 => .pure_bind (triple_runCall_done r fuel)

/-- `GetWallet` fills the cache and `GetCurrentAddressIndex` reads the index the call probes from -/
theorem triple_start (hne : w.escrow = false) (c : Int) :
    Triple (fun wd => Exact w wd.store ∧ getCurrentAddressIndex wd.store.address internal = c)
      (newAddressStep w m b ready gap connected internal .start >>=
        newAddressStep w m b ready gap connected internal)
      fun pc wd => pc = .probe (c + 1) ∧ Exact w wd.store ∧
        getCurrentAddressIndex wd.store.address internal = c := by
  have hs : Triple (fun wd => Exact w wd.store ∧ getCurrentAddressIndex wd.store.address internal = c)
      (newAddressStep w m b ready gap connected internal .start) fun pc wd =>
        pc = .read ∧ Exact w wd.store ∧ getCurrentAddressIndex wd.store.address internal = c :=
    .bind (.update fun _ h => ⟨(exact_getAllAddressData hne h.1).1, by
      rw [getAllAddressData_address]; exact h.2⟩) fun _ => .ret fun _ h => ⟨rfl, h⟩
  refine .bind hs fun pc => .pre fun v ⟨hpc, h⟩ => ?_
  subst hpc
  simp only [newAddressStep, hne, Bool.false_eq_true, if_false]
  exact .bind .read fun _ => .ret fun _ ⟨hv, h'⟩ => by subst hv h'; exact ⟨by rw [h.2], h⟩

/-- the final `AddAddress` of a fresh index makes it the current index -/
theorem triple_add (hne : w.escrow = false)
    (hinj : ∀ b j b' j', w.derive b j = w.derive b' j' → b = b' ∧ j = j') (j : Nat) :
    Triple (Below w internal j []) (newAddressStep w m b ready gap connected internal (.add j))
      fun pc wd => pc = .done j ∧ getCurrentAddressIndex wd.store.address internal = j := by
  refine .bind (.update fun wd h => ?_) fun _ => .ret fun _ h => ⟨rfl, h⟩
  show getCurrentAddressIndex (Nunchuk.addAddress w _ _ _ _).address internal = j
  rw [addAddress_address]
  simp only [addressAt, hne, Bool.false_eq_true, if_false, Int.toNat_ofNat]
  exact Int.le_antisymm
    (Int.lt_add_one_iff.mp (getCurrentAddressIndex_setAddress_lt (Int.lt_trans h.cur
      (Int.lt_succ _)) (Int.lt_succ _) (by have := h.neg_one_lt; omega)))
    (le_getCurrentAddressIndex_setAddress (get?_fresh hinj h.exact.rows h.cur))

end

section
variable {w : WalletDescriptor} (m : Nat) (b : Backend) (ready : Bool) {gap : Nat} {internal : Bool}
  (hne : w.escrow = false) (hinj : ∀ b j b' j', w.derive b j = w.derive b' j' → b = b' ∧ j = j')
  (hsh : ∀ a a', b.scripthash a = b.scripthash a' → a = a')
include hne hinj hsh

/-- one probe from `n`, above the current index, with either lookahead: the final address at
`j ≥ n`, without activity, or the next probe from `j > n`, past an address with activity -/
theorem triple_probe (hg : 0 < gap) (n : Nat) :
    Triple (Below w internal n []) (newAddressStep w m b ready gap true internal (.probe n))
      fun pc wd =>
        (∃ j : Nat, n ≤ j ∧ pc = .add j ∧ Below w internal j [] wd ∧
          (b.status (b.scripthash (w.derive internal j))).isEmpty = true) ∨
        (∃ j : Nat, n < j ∧ pc = .probe j ∧ Below w internal j [] wd ∧
          (b.status (b.scripthash (w.derive internal (j - 1)))).isEmpty = false) := by
  simp only [newAddressStep, Bool.true_and]
  split
  · rw [window_addresses n gap hne]
    refine .bind (triple_batchLookAhead m b ready hne hinj hsh n gap) fun last =>
      .pre fun v ⟨hB, hA1, hA2⟩ => ?_
    have hlast : -1 ≤ last ∧ last < gap ∧ (gap - 1 ≤ last → ∃ k < gap, (k : Int) = last ∧
        (b.status (b.scripthash (w.derive internal (n + k)))).isEmpty = false) := by
      rcases hA2 with rfl | ⟨k, hk, rfl, hst⟩
      · exact ⟨Int.le_refl _, by omega, fun _ => by omega⟩
      · exact ⟨by omega, by omega, fun _ => ⟨k, hk, rfl, hst⟩⟩
    split
    · refine .ret fun _ h => .inl ⟨(n + last + 1).toNat, by omega, by rw [Int.toNat_of_nonneg
        (by omega)], by rw [Int.toNat_of_nonneg (by omega)]; exact h ▸ hB, ?_⟩
      by_contra hst
      rw [Bool.not_eq_true] at hst
      have hidx : n + (last + 1).toNat = (n + last + 1).toNat := by omega
      have := hA1 (last + 1).toNat (by omega) (hidx ▸ hst)
      omega
    · obtain ⟨k, hk, hkl, hst⟩ := hlast.2.2 (by omega)
      refine .ret fun _ h => .inr ⟨n + gap, by omega, by push_cast; rfl, ?_, ?_⟩
      · have : (n : Int) + last + 1 = ((n + gap : Nat) : Int) := by omega
        exact this ▸ h ▸ hB
      · rwa [show n + gap - 1 = n + k by omega]
  · rw [show addressAt w internal n = w.derive internal n by
      simp only [addressAt, hne, Bool.false_eq_true, if_false, Int.toNat_ofNat]]
    refine .bind (triple_lookAhead m b ready hne hinj n) fun ok => .pre fun v ⟨h1, h0⟩ => ?_
    cases ok
    · obtain ⟨hst, hB⟩ := h0 rfl
      exact .ret fun _ h => .inl ⟨n, Nat.le_refl _, rfl, h ▸ hB, hst⟩
    · obtain ⟨hst, hB⟩ := h1 rfl
      exact .ret fun _ h => .inr ⟨n + 1, Nat.lt_succ_self _, by push_cast; rfl, by
        push_cast; exact h ▸ hB, hst⟩

end

section
variable (w : WalletDescriptor) (m : Nat) (b : Backend) (ready : Bool)

theorem returns_updateScripthashStatus {sh status : String} (h : status.isEmpty = true) :
    Returns (updateScripthashStatus w m b ready sh status) fun _ => True := fun wd =>
  ⟨(), wd, by simp [updateScripthashStatus, h], trivial⟩

/-- a lookahead of an address without activity returns: it fetches no history -/
theorem returns_lookAhead (connected : Bool) {a : Address} (index : Int) (internal : Bool)
    (h : (b.status (b.scripthash a)).isEmpty = true) :
    Returns (lookAhead w m b ready connected a index internal) fun _ => True := by
  unfold lookAhead
  split
  · exact .ret trivial
  · -- `SubscribeAddress` answers the status of the address, which is empty
    refine Returns.bind (fun wd => ⟨_, _, rfl, rfl⟩) fun p hp => ?_
    subst hp
    refine Returns.read.bind fun wd _ => ?_
    dsimp only
    split
    · exact .ret trivial
    · split
      · exact (Returns.update _).bind fun _ _ =>
          (returns_updateScripthashStatus w m b ready h).bind fun _ _ => .ret trivial
      · exact .pure_bind (.ret trivial)

/-- the loop of `BatchLookAhead` over answers without activity returns, and collects no
scripthash to update -/
theorem returns_batchLookAheadLoop (addresses : List Address) (indexes : List Int)
    (internal : Bool) (sub : Dict String Address) :
    ∀ (subs : List (String × String)), (∀ p ∈ subs, p.2.isEmpty = true) →
      ∀ last shs sts, Returns (batchLookAheadLoop w addresses indexes internal sub subs last shs sts)
        fun r => r.1 = shs
  | [], _, _, _, _ => .ret rfl
  | (sh, status) :: subs, h, last, shs, sts => by
    have hs : status.isEmpty = true := h _ (List.mem_cons_self _ _)
    have ih := returns_batchLookAheadLoop addresses indexes internal sub subs
      fun p hp => h p (List.mem_cons_of_mem _ hp)
    unfold batchLookAheadLoop
    refine Returns.read.bind fun wd _ => ?_
    dsimp only
    split
    · exact ih _ _ _
    · split
      · exact (Returns.update _).bind fun _ _ => by rw [if_neg (by simp [hs])]; exact ih _ _ _
      · exact ih _ _ _

/-- `UpdateScripthashesStatus` of no scripthash returns at once -/
theorem returns_updateScripthashesStatus_nil (statuses : List String) :
    Returns (updateScripthashesStatus w m b ready [] statuses) fun _ => True := fun wd =>
  ⟨(), wd, rfl, trivial⟩

/-- a batched lookahead over addresses without activity returns: it fetches no history -/
theorem returns_batchLookAhead (connected : Bool) {addresses : List Address} (indexes : List Int)
    (internal : Bool) (h : ∀ a ∈ addresses, (b.status (b.scripthash a)).isEmpty = true) :
    Returns (batchLookAhead w m b ready connected addresses indexes internal) fun _ => True := by
  unfold batchLookAhead
  split
  · exact .ret trivial
  · refine Returns.bind (fun wd => ⟨_, _, subscribeAddresses_run b addresses wd, rfl⟩)
      fun subs hsubs => ?_
    subst hsubs
    refine Returns.read.bind fun wd _ => ?_
    refine (returns_batchLookAheadLoop w addresses indexes internal _ _ (fun p hp => ?_) _ _ _).bind
      fun r hr => ?_
    · obtain ⟨sh, hsh, rfl⟩ := List.mem_map.mp hp
      obtain ⟨a, ha, rfl⟩ := List.mem_map.mp (mem_foldr_insertSorted.mp hsh)
      exact h a ha
    · obtain ⟨shs, sts, last⟩ := r
      dsimp only at hr ⊢
      subst hr
      exact (returns_updateScripthashesStatus_nil w m b ready _).bind fun _ _ => .ret trivial

/-- on a server without activity on the branch, every step of a call returns -/
theorem returns_newAddressStep (gap : Nat) (connected internal : Bool)
    (h : ∀ j : Nat, (b.status (b.scripthash (w.derive internal j))).isEmpty = true)
    (hne : w.escrow = false) :
    ∀ pc, Returns (newAddressStep w m b ready gap connected internal pc) fun _ => True
  | .start => (Returns.update _).bind fun _ _ => .ret trivial
  | .read => by
    simp only [newAddressStep, hne, Bool.false_eq_true, if_false]
    exact Returns.read.bind fun _ _ => .ret trivial
  | .probe index => by
    have ha : ∀ i, (b.status (b.scripthash (addressAt w internal i))).isEmpty = true := fun i => by
      rw [addressAt, hne]
      exact h _
    simp only [newAddressStep]
    split
    · refine (returns_batchLookAhead w m b ready connected _ internal fun a hai => ?_).bind
        fun _ _ => ?_
      · obtain ⟨i, -, rfl⟩ := List.mem_map.mp hai
        exact ha i
      · split <;> exact .ret trivial
    · exact (returns_lookAhead w m b ready connected index internal (ha index)).bind fun _ _ => by
        split <;> exact .ret trivial
  | .add index => (Returns.update _).bind fun _ _ => .ret trivial
  | .done index => .ret trivial

/-- on a server without activity on the branch, a call returns, whatever the number of steps -/
theorem returns_runCall (gap : Nat) (connected internal : Bool)
    (h : ∀ j : Nat, (b.status (b.scripthash (w.derive internal j))).isEmpty = true)
    (hne : w.escrow = false) :
    ∀ fuel pc, Returns (runCall w m b ready gap connected internal fuel pc) fun _ => True
  | 0, _ => .ret trivial
  | fuel + 1, pc => by
    rw [runCall_succ]
    exact (returns_newAddressStep w m b ready gap connected internal h hne pc).bind fun pc' _ =>
      returns_runCall gap connected internal h hne fuel pc'

end

theorem addressAt_natCast {w : WalletDescriptor} (hne : w.escrow = false) (internal : Bool)
    (j : Nat) : addressAt w internal j = w.derive internal j := by
  simp only [addressAt, hne, Bool.false_eq_true, if_false, Int.toNat_ofNat]

section
variable {w : WalletDescriptor} (m : Nat) (b : Backend) (ready : Bool) {gap : Nat} {internal : Bool}
  (hne : w.escrow = false) (hinj : ∀ b j b' j', w.derive b j = w.derive b' j' → b = b' ∧ j = j')
  (hsh : ∀ a a', b.scripthash a = b.scripthash a' → a = a')
include hne hinj hsh

/-- From a probe at `n` above the current index, when no address of the branch from `N` on has
activity, `N - n + 2` steps end the call on an index from `n` on without activity, which is the
current index: each probe that goes on passes an address with activity, so below `N`. -/
theorem triple_runCall_probe (hg : 0 < gap) {N : Nat}
    (hN : ∀ j : Nat, N ≤ j → (b.status (b.scripthash (w.derive internal j))).isEmpty = true) :
    ∀ fuel (n : Nat), N - n + 2 ≤ fuel →
      Triple (Below w internal n []) (runCall w m b ready gap true internal fuel (.probe n))
        fun pc wd => ∃ j : Nat, n ≤ j ∧ pc = .done j ∧
          (b.status (b.scripthash (w.derive internal j))).isEmpty = true ∧
          getCurrentAddressIndex wd.store.address internal = j
  | 0, _, h => absurd h (by omega)
  | fuel + 1, n, h => by
    rw [runCall_succ]
    refine .bind (triple_probe m b ready hne hinj hsh hg n) fun pc => .pre fun v hv => ?_
    rcases hv with ⟨j, hnj, rfl, hB, hst⟩ | ⟨j, hnj, rfl, hB, hst⟩
    · obtain ⟨f, rfl⟩ : ∃ f, fuel = f + 1 := ⟨fuel - 1, by omega⟩
      rw [runCall_succ]
      refine .bind ((triple_add m b ready gap hne hinj j).conseq (fun _ h => h ▸ hB)
        fun _ _ h => h) fun pc => .pre fun v' ⟨hpc, hcur⟩ => ?_
      subst hpc
      exact (triple_runCall_done m b ready gap _ f).conseq (fun _ h => h)
        fun _ _ ⟨hpc, h⟩ => ⟨j, hnj, hpc, hst, h ▸ hcur⟩
    · have hj : j ≤ N := by
        by_contra hjN
        rw [hN (j - 1) (by omega)] at hst
        cases hst
      exact (triple_runCall_probe hg hN fuel j (by omega)).conseq (fun _ h => h ▸ hB)
        fun _ _ ⟨k, hk, h⟩ => ⟨k, by omega, h⟩

/-- A whole call from a store whose rows are derived and whose current index is `c`: `GetWallet`,
`GetCurrentAddressIndex`, then the probes from `c + 1`. -/
theorem triple_runCall_start (hg : 0 < gap) {N : Nat}
    (hN : ∀ j : Nat, N ≤ j → (b.status (b.scripthash (w.derive internal j))).isEmpty = true)
    (c : Int) {fuel : Nat} (hf : N + 2 ≤ fuel) :
    Triple (fun v => Exact w v.store ∧ getCurrentAddressIndex v.store.address internal = c)
      (runCall w m b ready gap true internal (fuel + 2) .start)
      fun pc wd => ∃ r, pc = .done r ∧ c < r ∧
        (b.status (b.scripthash (addressAt w internal r))).isEmpty = true ∧
        getCurrentAddressIndex wd.store.address internal = r := by
  have hrun : runCall w m b ready gap true internal (fuel + 2) .start =
      (newAddressStep w m b ready gap true internal .start >>=
        newAddressStep w m b ready gap true internal) >>= runCall w m b ready gap true internal fuel :=
    by rw [bind_assoc]; rfl
  rw [hrun]
  refine .bind (triple_start m b ready gap hne c) fun pc => .pre fun v ⟨hpc, hv, hcv⟩ => ?_
  subst hpc
  have hc := neg_one_le_getCurrentAddressIndex hv.rows.nonneg internal
  rw [← Int.toNat_of_nonneg (by omega : 0 ≤ c + 1)]
  refine (triple_runCall_probe m b ready hne hinj hsh hg hN fuel _ (by omega)).conseq
    (fun _ h => by subst h; exact ⟨hv, by omega, nofun⟩)
    fun pc wd ⟨j, hj, hpc, hst, hcur⟩ => ⟨j, hpc, by omega, ?_, hcur⟩
  rwa [addressAt_natCast hne]

end

/-- a sequential server that reports activity on `r`, the receive address at 0 of
`unaryDescriptor`, and fails the request for the transaction of its history -/
def failedFetchBackend : Backend :=
  ⟨false, fun _ => Dict.empty, fun _ => none, fun _ => 0, id,
    fun sh => if sh = "r" then "s" else "", fun sh => if sh = "r" then [⟨"T", 1, none⟩] else []⟩

end Nunchuk
