import NunchukWallet.Store.AddressData

/-!
# `split` and `join` of utils/stringutils.hpp

`split(s, delim)` pushes every item `std::getline(ss, item, delim)` reads. `getline` appends the
characters up to the next `delim`, which it consumes, and fails only when it reads nothing at all:
so `split("")` is empty and a trailing `delim` gives no trailing empty item. `join(v, delim)` writes
the items with `delim` between them.

* `splitLoop`, `split`   the `getline` loop and `split`;
* `split_join`   `split(join(v, d), d) = v` exactly when no item holds `d` and the last item, if
                 any, is not empty;
* `join_split`   `join(split(s, d), d) = s` exactly when `s` does not end with `d`;
* `getAddressStatus_eq_split`   the model of `GetAddressStatus`, which splits the UTXO column
                 keeping a trailing empty field, reads the field `split` gives.
-/

namespace Nunchuk

/-- the loop of `split`: `item` holds what `getline` read since the last delimiter; at the end
of the text it yields `item` unless it read nothing -/
def splitLoop (delim : Char) : List Char → List Char → List (List Char)
  | item, [] => if item = [] then [] else [item]
  | item, c :: cs =>
    if c = delim then item :: splitLoop delim [] cs else splitLoop delim (item ++ [c]) cs

/-- `split(s, delim)` -/
def split (s : String) (delim : Char) : List String := (splitLoop delim [] s.data).map String.mk

section
variable {d : Char}

theorem splitLoop_append (item : List Char) :
    ∀ {x : List Char}, d ∉ x → ∀ t, splitLoop d item (x ++ t) = splitLoop d (item ++ x) t
  | [], _, t => by simp
  | c :: x, h, t => by
    rw [List.mem_cons, not_or] at h
    rw [List.cons_append, splitLoop, if_neg (Ne.symm h.1), splitLoop_append _ h.2,
      List.append_assoc, List.singleton_append]

theorem not_mem_of_mem_splitLoop :
    ∀ {item cs y : List Char}, d ∉ item → y ∈ splitLoop d item cs → d ∉ y
  | item, [], y, hi, hy => by
    unfold splitLoop at hy
    split at hy
    · cases hy
    · rw [List.mem_singleton.mp hy]; exact hi
  | item, c :: cs, y, hi, hy => by
    unfold splitLoop at hy
    split at hy
    · rcases List.mem_cons.mp hy with rfl | hy
      · exact hi
      · exact not_mem_of_mem_splitLoop (List.not_mem_nil d) hy
    · next hc =>
      exact not_mem_of_mem_splitLoop (by simp [hi, Ne.symm hc]) hy

theorem splitLoop_ne_nil : ∀ {item cs : List Char}, cs ≠ [] → splitLoop d item cs ≠ []
  | _, [], h => absurd rfl h
  | item, c :: cs, _ => by
    unfold splitLoop
    split
    · exact List.cons_ne_nil _ _
    · cases cs with
      | nil => simp [splitLoop]
      | cons => exact splitLoop_ne_nil (List.cons_ne_nil _ _)

theorem intercalate_cons_of_ne_nil (x : List Char) {l : List (List Char)} (h : l ≠ []) :
    List.intercalate [d] (x :: l) = x ++ d :: List.intercalate [d] l := by
  obtain ⟨y, ys, rfl⟩ := List.exists_cons_of_ne_nil h
  simp [List.intercalate]

/-- splitting the items written by `join`: the items come back, but a last empty item is lost -/
theorem splitLoop_intercalate (z : List Char) (hz : d ∉ z) :
    ∀ xs : List (List Char), (∀ x ∈ xs, d ∉ x) →
      splitLoop d [] (List.intercalate [d] (xs ++ [z])) = xs ++ if z = [] then [] else [z]
  | [], _ => by simpa [List.intercalate] using splitLoop_append [] hz []
  | x :: xs, h => by
    rw [List.cons_append, intercalate_cons_of_ne_nil x (by simp),
      splitLoop_append [] (h x (List.mem_cons_self _ _)), List.nil_append, splitLoop, if_pos rfl,
      splitLoop_intercalate z hz xs fun y hy => h y (List.mem_cons_of_mem _ hy), List.cons_append]

/-- joining the items `split` reads gives the text back, less a trailing delimiter -/
theorem intercalate_splitLoop :
    ∀ {item : List Char} (cs : List Char), d ∉ item →
      List.intercalate [d] (splitLoop d item cs) =
        if cs.getLast? = some d then (item ++ cs).dropLast else item ++ cs
  | item, [], _ => by
    unfold splitLoop
    split <;> simp_all [List.intercalate]
  | item, c :: cs, hi => by
    unfold splitLoop
    split
    · next hc =>
      rw [hc]
      cases cs with
      | nil => simp [splitLoop, List.intercalate]
      | cons c' cs =>
        rw [intercalate_cons_of_ne_nil item (splitLoop_ne_nil (List.cons_ne_nil _ _)),
          intercalate_splitLoop _ (List.not_mem_nil d)]
        simp only [List.getLast?_cons_cons, List.nil_append]
        split
        · simp
        · rfl
    · next hc =>
      rw [intercalate_splitLoop cs (by simp [hi, Ne.symm hc]), List.append_assoc,
        List.singleton_append]
      cases cs with
      | nil => simp [hc]
      | cons => rw [List.getLast?_cons_cons]

end

theorem map_data_map_mk (l : List (List Char)) : (l.map String.mk).map String.data = l := by
  simp [Function.comp_def]

/-- `split(join(v, d), d)` gives `v` back exactly when no item of `v` holds `d` and the last item,
if there is one, is not empty. -/
theorem split_join (v : List String) (d : Char) :
    split (join v d) d = v ↔ (∀ x ∈ v, d ∉ x.data) ∧ v.getLast? ≠ some "" := by
  have hmk : ∀ l : List (List Char), l.map String.mk = v ↔ l = v.map String.data := fun l =>
    ⟨fun h => by rw [← h, map_data_map_mk], fun h => by simp [h, Function.comp_def]⟩
  simp only [split, join, hmk]
  rcases List.eq_nil_or_concat v with rfl | ⟨xs, ⟨z⟩, rfl⟩
  · simp [List.intercalate, splitLoop]
  rw [List.concat_eq_append]
  have hxs : (∀ x ∈ xs ++ [⟨z⟩], d ∉ x.data) → ∀ y ∈ xs.map String.data, d ∉ y :=
    fun h y hy => by
      obtain ⟨x, hx, rfl⟩ := List.mem_map.mp hy
      exact h x (List.mem_append_left _ hx)
  constructor
  · intro h
    have hfree : ∀ x ∈ xs ++ [⟨z⟩], d ∉ x.data := fun x hx =>
      not_mem_of_mem_splitLoop (List.not_mem_nil d) (by rw [h]; exact List.mem_map_of_mem _ hx)
    refine ⟨hfree, fun hz => ?_⟩
    obtain rfl : z = [] := by simpa [String.ext_iff] using hz
    rw [List.map_append, List.map_singleton, splitLoop_intercalate _ (List.not_mem_nil d) _
      (hxs hfree), if_pos rfl] at h
    simpa using congrArg List.length h
  · rintro ⟨hfree, hz⟩
    have hne : z ≠ [] := fun h => hz (by simp [h])
    rw [List.map_append, List.map_singleton, splitLoop_intercalate _
      (hfree _ (List.mem_append_right _ (List.mem_singleton_self _))) _ (hxs hfree), if_neg hne]

/-- `join(split(s, d), d)` gives `s` back exactly when `s` does not end with `d`. -/
theorem join_split (s : String) (d : Char) : join (split s d) d = s ↔ s.data.getLast? ≠ some d := by
  obtain ⟨cs⟩ := s
  simp only [join, split, map_data_map_mk, intercalate_splitLoop cs (List.not_mem_nil d),
    List.nil_append, String.ext_iff]
  split
  · next h =>
    simp only [h, ne_eq, not_true_eq_false, iff_false]
    intro he
    have := congrArg List.length he
    have hpos : 0 < cs.length := List.length_pos.mpr fun h' => by simp [h'] at h
    simp only [List.length_dropLast] at this
    omega
  · simpa

example : join (split "a||b|" '|') '|' = "a||b" := rfl

/-! ## `splitFields` against `split` -/

/-- `split` is `splitOn` less a last empty piece -/
theorem splitLoop_eq_splitOn {d : Char} :
    ∀ {item : List Char} (cs : List Char), d ∉ item →
      splitLoop d item cs = let l := (item ++ cs).splitOn d
        if l.getLast? = some [] then l.dropLast else l
  | item, [], hi => by
    have hs : item.splitOn d = [item] :=
      List.splitOnP_eq_single (· == d) item fun x hx h => hi (beq_iff_eq.mp h ▸ hx)
    by_cases h : item = [] <;> simp [splitLoop, hs, h]
  | item, c :: cs, hi => by
    unfold splitLoop
    split
    · next hc =>
      have hs : (item ++ c :: cs).splitOn d = item :: cs.splitOn d :=
        List.splitOnP_first (· == d) item (fun x hx h => hi (beq_iff_eq.mp h ▸ hx)) c
          (by simp [hc]) cs
      obtain ⟨y, ys, hy⟩ := List.exists_cons_of_ne_nil (List.splitOnP_ne_nil (· == d) cs)
      rw [splitLoop_eq_splitOn cs (List.not_mem_nil d), hs]
      simp only [List.nil_append, List.splitOn] at hy ⊢
      rw [hy, List.getLast?_cons_cons]
      split <;> simp
    · next hc =>
      rw [splitLoop_eq_splitOn cs (by simp [hi, Ne.symm hc]), List.append_assoc,
        List.singleton_append]

/-- `GetAddressStatus` reads the item at position one of `split(utxo, '|')` of the UTXO text up to
its first NUL, or `""`: the model,
which splits with a trailing empty piece kept, agrees with `std::getline`'s `split` -/
theorem getAddressStatus_eq_split (t : AddressTable) (a : Address) :
    getAddressStatus t a = match t.get? a with
      | some r => ((split (columnText r.utxo) '|')[1]?).getD ""
      | none => "" := by
  unfold getAddressStatus
  cases t.get? a with
  | none => rfl
  | some r =>
    simp only [split, splitFields, splitLoop_eq_splitOn (columnText r.utxo).data
      (List.not_mem_nil '|'), List.nil_append]
    generalize (columnText r.utxo).data.splitOn '|' = l
    match l with
    | [] => rfl
    | [_] => simp only [List.getLast?_singleton, Option.some.injEq]; split_ifs <;> rfl
    | [_, y] => by_cases hy : y = [] <;> simp [hy]
    | _ :: _ :: _ :: _ =>
      simp only [List.getLast?_cons_cons, List.dropLast_cons₂]; split_ifs <;> simp

end Nunchuk
