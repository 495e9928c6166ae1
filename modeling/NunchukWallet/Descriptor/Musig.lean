import Mathlib.Data.List.Sublists
import Mathlib.Data.Nat.Choose.Basic
import NunchukWallet.Descriptor.ScriptTree

/-!
# The signing sets of `GetMusigDescriptor`

`GetMusigDescriptor(keys, m)` writes the first `m` keys as the key path of a taproot `musig`
descriptor, then steps `std::prev_permutation` through the vector of `m` trues and `n - m` falses
and writes a `pk(musig(...))` leaf for each arrangement it visits. Read as a number, a vector is
ordered as `prev_permutation` orders it, so the arrangements it visits are the smaller ones of the
same count, each once; read through the keys, they are the other choices of `m` keys.

* `binValue_le_of_prevPermutation_eq_none`, `binValue_le_of_prevPermutation_eq_some`   the step
                              of `std::prev_permutation`: it stops at the least arrangement, and
                              otherwise returns the largest smaller one;
* `mem_prevPermutations`, `nodup_prevPermutations`   the loop visits every smaller arrangement of
                              the same length and count, each once;
* `selectKeys`, `musigOf`     the keys a vector chooses, and the text `musig(S)` of a key list;
* `firstChoice`, `otherChoices`, `mem_otherChoices`, `length_otherChoices`   the first `m` keys,
                              and the choices of the leaves: every other `m`-sublist of the keys;
* `getMusigDescriptor_signing_sets`   on `n` distinct keys and `1 ≤ m ≤ n`, the key path is the
                              first `m` keys and the leaves are the other `C(n, m) - 1` choices of
                              `m` keys, each once.
-/

namespace Nunchuk

/-! ## the steps of `std::prev_permutation` -/

theorem binValue_cons (b : Bool) (bs : List Bool) :
    binValue (b :: bs) = (if b then 2 ^ bs.length else 0) + binValue bs := rfl

theorem binValue_append_false : ∀ bs : List Bool, binValue (bs ++ [false]) = 2 * binValue bs
  | [] => rfl
  | b :: bs => by
    rw [List.cons_append, binValue_cons, binValue_cons, binValue_append_false bs,
      List.length_append, List.length_singleton, Nat.pow_succ]
    split <;> omega

/-- all the `true`s first is the largest arrangement -/
theorem binValue_le_sorted : ∀ u : List Bool,
    binValue u ≤
      binValue (List.replicate (u.count true) true ++ List.replicate (u.count false) false)
  | [] => Nat.le_refl _
  | true :: us => by
    have h := binValue_le_sorted us
    have hl := count_true_add_count_false us
    rw [List.count_cons_self, List.count_cons_of_ne (by decide), List.replicate_succ,
      List.cons_append, binValue_cons, binValue_cons, List.length_append, List.length_replicate,
      List.length_replicate, hl]
    simp only [if_true]
    omega
  | false :: us => by
    have h := binValue_le_sorted us
    rw [List.count_cons_self, List.count_cons_of_ne (by decide), List.replicate_succ',
      ← List.append_assoc, binValue_append_false, binValue_cons]
    simp only [Bool.false_eq_true, if_false]
    omega

theorem binValue_inj : ∀ {u w : List Bool}, u.length = w.length → binValue u = binValue w → u = w
  | [], [], _, _ => rfl
  | b :: us, c :: ws, hl, hv => by
    have hl' : us.length = ws.length := by simpa using hl
    have h1 : binValue us < 2 ^ ws.length := hl' ▸ binValue_lt us
    have h2 := binValue_lt ws
    rw [binValue_cons, binValue_cons, hl'] at hv
    cases b <;> cases c <;> simp only [if_true, if_false, Bool.false_eq_true, Nat.zero_add] at hv
    · exact congrArg _ (binValue_inj hl' hv)
    · omega
    · omega
    · exact congrArg _ (binValue_inj hl' (by omega))

theorem count_prevPermutation : ∀ {v w : List Bool}, prevPermutation v = some w →
    w.count true = v.count true
  | [], _, h => by cases h
  | x :: xs, w, h => by
    unfold prevPermutation at h
    split at h
    · next ys hys =>
      cases h
      simp only [List.count_cons, count_prevPermutation hys]
    · split at h
      · next hx =>
        cases h
        obtain ⟨rfl, -⟩ := Bool.and_eq_true_iff.mp hx
        simp [List.count_cons, List.count_replicate]
      · cases h

/-- with no previous arrangement, a vector has the least value of its length and count -/
theorem binValue_le_of_prevPermutation_eq_none : ∀ {v : List Bool}, prevPermutation v = none →
    ∀ u : List Bool, u.length = v.length → u.count true = v.count true → binValue v ≤ binValue u
  | [], _, u, hl, _ => Nat.zero_le _
  | x :: xs, h, [], hl, _ => by cases hl
  | x :: xs, h, y :: us, hl, hc => by
    have hl' : us.length = xs.length := by simpa using hl
    unfold prevPermutation at h
    split at h
    · cases h
    · next hxs =>
      have ih := binValue_le_of_prevPermutation_eq_none hxs us hl'
      have hb : binValue xs < 2 ^ us.length := hl' ▸ binValue_lt xs
      rw [binValue_cons, binValue_cons, hl']
      rw [hl'] at hb
      cases x <;> cases y <;> simp only [List.count_cons_self, List.count_cons_of_ne,
        ne_eq, Bool.false_eq_true, not_false_eq_true, Bool.true_eq_false, if_true, if_false,
        Nat.zero_add, Nat.add_right_cancel_iff] at hc ⊢
      · exact ih hc
      · omega
      · -- a head `true` over a tail with no `false`: the tail is all `true`
        have hall : xs.count true = xs.length := List.count_eq_length.mpr fun b hb' => by
          cases b
          · simp at h
            exact absurd hb' h
          · rfl
        have := List.count_le_length true us
        omega
      · exact Nat.add_le_add_left (ih hc) _


/-- the previous arrangement is the largest of the smaller ones of the same length and count -/
theorem binValue_le_of_prevPermutation_eq_some : ∀ {v w : List Bool}, prevPermutation v = some w →
    ∀ u : List Bool, u.length = v.length → u.count true = v.count true →
      binValue u < binValue v → binValue u ≤ binValue w
  | [], _, h, _, _, _, _ => by cases h
  | x :: xs, _, _, [], hl, _, _ => by cases hl
  | x :: xs, w, h, y :: us, hl, hc, hlt => by
    have hl' : us.length = xs.length := by simpa using hl
    have hu : binValue us < 2 ^ xs.length := hl' ▸ binValue_lt us
    have hx := binValue_lt xs
    unfold prevPermutation at h
    split at h
    · next ys hys =>
      -- the head stays, the tail steps back
      cases h
      have hys' := (prevPermutation_spec hys).1
      rw [binValue_cons, binValue_cons, hl'] at hlt
      rw [binValue_cons, binValue_cons, hys', hl']
      cases x <;> cases y <;> simp only [List.count_cons_self, List.count_cons_of_ne,
        ne_eq, Bool.false_eq_true, not_false_eq_true, Bool.true_eq_false, if_true, if_false,
        Nat.zero_add, Nat.add_right_cancel_iff] at hc hlt ⊢
      · exact binValue_le_of_prevPermutation_eq_some hys us hl' hc hlt
      · omega
      · omega
      · exact Nat.add_le_add_left
          (binValue_le_of_prevPermutation_eq_some hys us hl' hc (by omega)) _
    · split at h
      · next hxs hx' =>
        -- the head `true` becomes `false` over the largest tail
        cases h
        obtain ⟨rfl, -⟩ := Bool.and_eq_true_iff.mp hx'
        have hsum := count_true_add_count_false us
        have hsum' := count_true_add_count_false xs
        cases y
        · have hc' : us.count true = xs.count true + 1 := by
            simpa [List.count_cons] using hc
          have hf : us.count false = xs.count false - 1 := by omega
          have := binValue_le_sorted us
          rw [hc', hf] at this
          simpa [binValue_cons] using this
        · have hc' : us.count true = xs.count true := by simpa [List.count_cons] using hc
          have := binValue_le_of_prevPermutation_eq_none hxs us hl' hc'
          rw [binValue_cons, binValue_cons, hl'] at hlt
          simp only [if_true] at hlt
          omega
      · cases h


theorem prevPermutations_of_some {v w : List Bool} (h : prevPermutation v = some w) :
    prevPermutations v = w :: prevPermutations w := by
  rw [prevPermutations]
  split <;> simp_all

theorem prevPermutations_of_none {v : List Bool} (h : prevPermutation v = none) :
    prevPermutations v = [] := by
  rw [prevPermutations]
  split <;> simp_all

/-- the loop visits exactly the arrangements of the same length and count of lower value -/
theorem mem_prevPermutations {v u : List Bool} :
    u ∈ prevPermutations v ↔
      u.length = v.length ∧ u.count true = v.count true ∧ binValue u < binValue v := by
  cases hv : prevPermutation v with
  | none =>
    rw [prevPermutations_of_none hv]
    simp only [List.not_mem_nil, false_iff, not_and, Nat.not_lt]
    exact fun hl hc => binValue_le_of_prevPermutation_eq_none hv u hl hc
  | some w =>
    obtain ⟨hwl, hwv⟩ := prevPermutation_spec hv
    have hwc := count_prevPermutation hv
    rw [prevPermutations_of_some hv, List.mem_cons, @mem_prevPermutations w u, hwl, hwc]
    constructor
    · rintro (rfl | ⟨hl, hc, hlt⟩)
      · exact ⟨hwl, hwc, hwv⟩
      · exact ⟨hl, hc, hlt.trans hwv⟩
    · rintro ⟨hl, hc, hlt⟩
      rcases Nat.lt_or_eq_of_le (binValue_le_of_prevPermutation_eq_some hv u hl hc hlt) with
        hlt' | heq
      · exact .inr ⟨hl, hc, hlt'⟩
      · exact .inl (binValue_inj (hl.trans hwl.symm) heq)
termination_by binValue v

theorem nodup_prevPermutations (v : List Bool) : (prevPermutations v).Nodup := by
  cases hv : prevPermutation v with
  | none =>
    rw [prevPermutations_of_none hv]
    exact List.nodup_nil
  | some w =>
    have := (prevPermutation_spec hv).2
    rw [prevPermutations_of_some hv]
    exact List.nodup_cons.mpr ⟨fun hw => Nat.lt_irrefl _ (mem_prevPermutations.mp hw).2.2,
      nodup_prevPermutations w⟩
termination_by binValue v

/-! ## the keys a vector chooses -/

/-- the keys a vector chooses, in index order: the `if (v[i])` of the `musig` lambda -/
def selectKeys (keys : List (List Char)) (v : List Bool) : List (List Char) :=
  (keys.zip v).filterMap fun (k, b) => if b then some k else none

@[simp] theorem selectKeys_nil (v : List Bool) : selectKeys [] v = [] := rfl

@[simp] theorem selectKeys_cons_nil (k : List Char) (ks : List (List Char)) :
    selectKeys (k :: ks) [] = [] := rfl

@[simp] theorem selectKeys_cons_cons (k : List Char) (ks : List (List Char)) (b : Bool)
    (bs : List Bool) :
    selectKeys (k :: ks) (b :: bs) = if b then k :: selectKeys ks bs else selectKeys ks bs := by
  cases b <;> rfl

theorem selectKeys_sublist :
    ∀ (keys : List (List Char)) (v : List Bool), (selectKeys keys v).Sublist keys
  | [], _ => .slnil
  | _ :: _, [] => List.nil_sublist _
  | k :: ks, b :: bs => by
    cases b
    · exact (selectKeys_sublist ks bs).cons k
    · exact (selectKeys_sublist ks bs).cons₂ k

theorem length_selectKeys : ∀ {keys : List (List Char)} {v : List Bool},
    v.length = keys.length → (selectKeys keys v).length = v.count true
  | [], [], _ => rfl
  | k :: ks, b :: bs, h => by
    have := @length_selectKeys ks bs (by simpa using h)
    cases b <;> simp [this, List.count_cons]

theorem selectKeys_inj {keys : List (List Char)} (hk : keys.Nodup) :
    ∀ {u w : List Bool}, u.length = keys.length → w.length = keys.length →
      selectKeys keys u = selectKeys keys w → u = w := by
  induction keys with
  | nil =>
    intro u w hu hw _
    rw [List.eq_nil_of_length_eq_zero hu, List.eq_nil_of_length_eq_zero hw]
  | cons k ks ih =>
    intro u w hu hw h
    obtain ⟨hk', hks⟩ := List.nodup_cons.mp hk
    match u, w, hu, hw with
    | b :: us, c :: ws, hu, hw =>
      have hu' : us.length = ks.length := by simpa using hu
      have hw' : ws.length = ks.length := by simpa using hw
      have hnot : ∀ bs : List Bool, k ∉ selectKeys ks bs := fun bs hm =>
        hk' ((selectKeys_sublist ks bs).subset hm)
      cases b <;> cases c <;> simp only [selectKeys_cons_cons, if_true, if_false,
        Bool.false_eq_true, List.cons.injEq, true_and] at h ⊢
      · exact ih hks hu' hw' h
      · exact (hnot us (h ▸ List.mem_cons_self k _)).elim
      · exact (hnot ws (h ▸ List.mem_cons_self k _)).elim
      · exact ih hks hu' hw' h

theorem exists_selectKeys {S keys : List (List Char)} (h : S.Sublist keys) :
    ∃ u : List Bool, u.length = keys.length ∧ selectKeys keys u = S := by
  induction h with
  | slnil => exact ⟨[], rfl, rfl⟩
  | cons k _ ih =>
    obtain ⟨u, hl, hs⟩ := ih
    exact ⟨false :: u, by simp [hl], by simp [hs]⟩
  | cons₂ k _ ih =>
    obtain ⟨u, hl, hs⟩ := ih
    exact ⟨true :: u, by simp [hl], by simp [hs]⟩

theorem selectKeys_replicate_false : ∀ (keys : List (List Char)) (n : Nat),
    selectKeys keys (List.replicate n false) = []
  | [], _ => rfl
  | _ :: _, 0 => rfl
  | _ :: ks, n + 1 => by simp [List.replicate_succ, selectKeys_replicate_false ks n]

theorem selectKeys_take : ∀ (keys : List (List Char)) (m : Nat),
    selectKeys keys (List.replicate m true ++ List.replicate (keys.length - m) false) =
      keys.take m
  | [], _ => by simp
  | ks, 0 => by simp [selectKeys_replicate_false]
  | k :: ks, m + 1 => by
    simp [List.replicate_succ, selectKeys_take ks m]

/-- the vector `v` of `GetMusigDescriptor`: `m` trues, then falses -/
theorem initial_selection {n m : Nat} (h : m ≤ n) :
    ((List.range n).map fun i => decide ((i : Int) < (m : Int))) =
      List.replicate m true ++ List.replicate (n - m) false := by
  have hl : ((List.range n).map fun i => decide ((i : Int) < (m : Int))).length = n := by
    simp [← List.map_eq_flatMap]
  refine List.ext_getElem (by simp only [hl, List.length_append, List.length_replicate]; omega)
    fun i h1 h2 => ?_
  simp only [hl] at h1
  simp [← List.map_eq_flatMap, List.getElem_append, List.getElem_replicate]

/-! ## the descriptor -/

/-- what the lambda `musig` of `GetMusigDescriptor` writes for the keys `v` selects (`musig` is
this of `selectKeys`): `musig(k₁,…,kₘ)` -/
def musigOf (S : List (List Char)) : List Char :=
  "musig(".data ++ List.intercalate [','] S ++ [')']

theorem musig_eq_musigOf (keys : List (List Char)) (v : List Bool) :
    musig keys v = musigOf (selectKeys keys v) := rfl

theorem two_le_choose {n m : Nat} (h1 : 1 ≤ m) (hm : m < n) : 2 ≤ n.choose m := by
  obtain ⟨n, rfl⟩ : ∃ n', n = n' + 1 := ⟨n - 1, by omega⟩
  obtain ⟨m, rfl⟩ : ∃ m', m = m' + 1 := ⟨m - 1, by omega⟩
  rw [Nat.choose_succ_succ']
  have := Nat.choose_pos (show m ≤ n by omega)
  have := Nat.choose_pos (show m + 1 ≤ n by omega)
  omega

/-- the vector `v` of `GetMusigDescriptor` after `std::fill`: `m` trues, then falses -/
def firstChoice (n m : Nat) : List Bool := List.replicate m true ++ List.replicate (n - m) false

theorem length_firstChoice {n m : Nat} (h : m ≤ n) : (firstChoice n m).length = n := by
  simp [firstChoice]
  omega

theorem count_firstChoice (n m : Nat) : (firstChoice n m).count true = m := by
  simp [firstChoice, List.count_replicate]

/-- the choices of keys of the arrangements the loop visits after `firstChoice` -/
def otherChoices (keys : List (List Char)) (m : Nat) : List (List (List Char)) :=
  (prevPermutations (firstChoice keys.length m)).map (selectKeys keys)

theorem getMusigDescriptor_eq {keys : List (List Char)} {m : Nat} (hm : m ≤ keys.length) :
    getMusigDescriptor keys m = if (keys.length : Int) = (m : Int)
      then some ("tr(".data ++ musigOf (keys.take m) ++ [')'])
      else ((getScriptpathDescriptor ((otherChoices keys m).map fun S =>
        "pk(".data ++ musigOf S ++ [')'])).map fun t =>
          "tr(".data ++ musigOf (keys.take m) ++ [','] ++ t ++ [')']) := by
  simp only [getMusigDescriptor, initial_selection hm, musig_eq_musigOf, otherChoices,
    List.map_map, Function.comp_def, firstChoice, selectKeys_take]

section
variable {keys : List (List Char)} (hk : keys.Nodup) {m : Nat} (hm : m ≤ keys.length)
include hk hm

/-- the loop visits every other choice of `m` keys, in key order -/
theorem mem_otherChoices {S : List (List Char)} :
    S ∈ otherChoices keys m ↔ S.Sublist keys ∧ S.length = m ∧ S ≠ keys.take m := by
  have hsel : selectKeys keys (firstChoice keys.length m) = keys.take m := selectKeys_take keys m
  have hl := length_firstChoice hm
  have hc := count_firstChoice keys.length m
  rw [otherChoices, List.mem_map]
  constructor
  · rintro ⟨u, hu, rfl⟩
    obtain ⟨hul, huc, hub⟩ := mem_prevPermutations.mp hu
    refine ⟨selectKeys_sublist _ _, (length_selectKeys (hul.trans hl)).trans (huc.trans hc),
      fun he => ?_⟩
    rw [← hsel] at he
    rw [selectKeys_inj hk (hul.trans hl) hl he] at hub
    exact Nat.lt_irrefl _ hub
  · rintro ⟨hsub, hlen, hne⟩
    obtain ⟨u, hul, rfl⟩ := exists_selectKeys hsub
    have huc : u.count true = m := (length_selectKeys hul).symm.trans hlen
    -- `firstChoice` is the largest arrangement of its count: `u` is below it
    have hle := binValue_le_sorted u
    rw [show List.replicate (u.count true) true ++ List.replicate (u.count false) false =
      firstChoice keys.length m by
        have := count_true_add_count_false u
        rw [huc, firstChoice]
        congr 2
        omega] at hle
    refine ⟨u, mem_prevPermutations.mpr ⟨hul.trans hl.symm, huc.trans hc.symm,
      Nat.lt_of_le_of_ne hle fun h => hne ?_⟩, rfl⟩
    rw [binValue_inj (hul.trans hl.symm) h, hsel]

theorem nodup_otherChoices : (otherChoices keys m).Nodup := by
  have hl := length_firstChoice hm
  exact (nodup_prevPermutations _).map_on fun u hu w hw h =>
    selectKeys_inj hk ((mem_prevPermutations.mp hu).1.trans hl)
      ((mem_prevPermutations.mp hw).1.trans hl) h

/-- the other choices are the `m`-sublists of the keys but the first `m` keys -/
theorem length_otherChoices : (otherChoices keys m).length = keys.length.choose m - 1 := by
  have hs := List.nodup_sublistsLen m hk
  have hperm : (otherChoices keys m).Perm ((keys.sublistsLen m).erase (keys.take m)) :=
    (List.perm_ext_iff_of_nodup (nodup_otherChoices hk hm) (hs.erase _)).mpr fun S => by
      rw [mem_otherChoices hk hm, hs.mem_erase_iff, List.mem_sublistsLen]
      tauto
  rw [hperm.length_eq, List.length_erase_of_mem (List.mem_sublistsLen.mpr
    ⟨List.take_sublist _ _, by simp; omega⟩), List.length_sublistsLen]

end

/-- On `n` distinct keys and `1 ≤ m ≤ n`, `GetMusigDescriptor(keys, m)` is `tr(musig(K0))` when
`m = n`, and otherwise `tr(musig(K0),T)` where `K0` is the first `m` keys and the leaves of `T` are
`pk(musig(S))` for the other choices `S` of `m` keys, in key order, each once: `C(n, m) - 1` of
them. -/
theorem getMusigDescriptor_signing_sets {keys : List (List Char)} (hk : keys.Nodup) {m : Nat}
    (h1 : 1 ≤ m) (hm : m ≤ keys.length) :
    (m = keys.length →
      getMusigDescriptor keys m = some ("tr(".data ++ musigOf (keys.take m) ++ [')'])) ∧
    (m < keys.length → ∃ (T : ScriptTree) (Ss : List (List (List Char))),
      getMusigDescriptor keys m =
        some ("tr(".data ++ musigOf (keys.take m) ++ [','] ++ T.render ++ [')']) ∧
      T.leaves = Ss.map (fun S => "pk(".data ++ musigOf S ++ [')']) ∧ Ss.Nodup ∧
      (∀ S, S ∈ Ss ↔ S.Sublist keys ∧ S.length = m ∧ S ≠ keys.take m) ∧
      Ss.length = keys.length.choose m - 1) := by
  refine ⟨fun he => by rw [getMusigDescriptor_eq hm, if_pos (by rw [he])], fun hlt => ?_⟩
  -- with fewer than all keys there is another choice, so the script tree has a leaf
  have hne : otherChoices keys m ≠ [] := fun h => by
    have := two_le_choose h1 hlt
    have := length_otherChoices hk hm
    rw [h, List.length_nil] at this
    omega
  obtain ⟨T, hT, hl, -⟩ := getScriptpathDescriptor_trees
    (((otherChoices keys m).map fun S => "pk(".data ++ musigOf S ++ [')']).map .leaf)
    (by simpa using hne) 0 (by simp [ScriptTree.depth]) (by simp [ScriptTree.depth])
  rw [ScriptTree.map_render_map_leaf] at hT
  rw [ScriptTree.flatMap_leaves_map_leaf] at hl
  refine ⟨T, otherChoices keys m, ?_, hl, nodup_otherChoices hk hm, fun S => mem_otherChoices hk hm,
    length_otherChoices hk hm⟩
  rw [getMusigDescriptor_eq hm, if_neg (by omega), hT]
  rfl

/-- three keys `A`, `B`, `C` -/
def threeKeys : List (List Char) := ["A".data, "B".data, "C".data]

theorem getMusigDescriptor_signing_sets_two_of_three :
    threeKeys.Nodup ∧ 1 ≤ 2 ∧ 2 ≤ threeKeys.length ∧
    (2 = threeKeys.length → getMusigDescriptor threeKeys ((2 : Nat) : Int) =
      some ("tr(".data ++ musigOf (threeKeys.take 2) ++ [')'])) ∧
    (2 < threeKeys.length → ∃ (T : ScriptTree) (Ss : List (List (List Char))),
      getMusigDescriptor threeKeys ((2 : Nat) : Int) =
        some ("tr(".data ++ musigOf (threeKeys.take 2) ++ [','] ++ T.render ++ [')']) ∧
      T.leaves = Ss.map (fun S => "pk(".data ++ musigOf S ++ [')']) ∧ Ss.Nodup ∧
      (∀ S, S ∈ Ss ↔ S.Sublist threeKeys ∧ S.length = 2 ∧ S ≠ threeKeys.take 2) ∧
      Ss.length = threeKeys.length.choose 2 - 1) :=
  have h : threeKeys.Nodup ∧ 1 ≤ 2 ∧ 2 ≤ threeKeys.length := by decide
  ⟨h.1, h.2.1, h.2.2, getMusigDescriptor_signing_sets h.1 h.2.1 h.2.2⟩

end Nunchuk
