import Mathlib

/-!
# Finite tables with an ordered key

`Table K V` is the extensional tree map of the standard library.  It stands
for two containers at once.  A bucket of an ordered key-value store lists
its entries by key, and `Table.toList` is that order.  A hash map has no
order of its own, and a program that ranges over one sees the keys in some
order: `RangeOrder` is one such order, as a permutation of the key list.

The lemmas restate lookups with `=` on keys in place of `compare`, and add
the lookups of a fold that a transaction leaves behind:

* `get_insert`, `get_erase` and `get_modify`: one write;
* `get_foldl_modifyAt`: a list of writes that may name a key more than once;
* `get_foldl_insert`: a list of fresh entries with distinct keys;
* `get_foldl_erase`: a list of deletions.
-/

namespace DagScheduler.Lib

/-- A finite table whose keys are listed in the order of `K`. -/
abbrev Table (K V : Type) [Ord K] := Std.ExtTreeMap K V compare

/-- One order in which a range over a hash map visits its keys. -/
structure RangeOrder (K : Type) where
  visit : List K → List K
  perm : ∀ keys, (visit keys).Perm keys

namespace RangeOrder

/-- The order that visits the keys as the table lists them. -/
def asListed (K : Type) : RangeOrder K := ⟨id, fun _ => .refl _⟩

variable {K : Type} (o : RangeOrder K)

@[simp] theorem mem_visit {keys : List K} {k : K} :
    k ∈ o.visit keys ↔ k ∈ keys :=
  (o.perm keys).mem_iff

theorem nodup_visit {keys : List K} (h : keys.Nodup) : (o.visit keys).Nodup :=
  (o.perm keys).nodup_iff.mpr h

end RangeOrder

namespace Table

variable {K V : Type} [Ord K] [Std.TransOrd K]

theorem mem_iff_get (t : Table K V) (k : K) : k ∈ t ↔ ∃ v, t[k]? = some v := by
  rw [Std.ExtTreeMap.mem_iff_isSome_getElem?, Option.isSome_iff_exists]

theorem not_mem_iff_get (t : Table K V) (k : K) : k ∉ t ↔ t[k]? = none := by
  rw [Std.ExtTreeMap.mem_iff_isSome_getElem?, Option.not_isSome_iff_eq_none]

theorem getD_eq (t : Table K V) (k : K) (fallback : V) :
    t.getD k fallback = t[k]?.getD fallback :=
  Std.ExtTreeMap.getD_eq_getD_getElem?

theorem nodup_keys (t : Table K V) : t.keys.Nodup := Std.ExtTreeMap.nodup_keys

theorem nodup_toList (t : Table K V) : (t.toList.map (·.1)).Nodup := by
  rw [Std.ExtTreeMap.map_fst_toList_eq_keys]
  exact nodup_keys t

variable [Std.LawfulEqOrd K]

theorem mem_toList_iff (t : Table K V) (e : K × V) :
    e ∈ t.toList ↔ t[e.1]? = some e.2 :=
  Std.ExtTreeMap.mem_toList_iff_getElem?_eq_some

variable [DecidableEq K]

theorem get_insert (t : Table K V) (k a : K) (v : V) :
    (t.insert k v)[a]? = if k = a then some v else t[a]? := by
  rw [Std.ExtTreeMap.getElem?_insert]
  simp only [Std.LawfulEqCmp.compare_eq_iff_eq]

theorem get_insert_ne (t : Table K V) {k a : K} (v : V) (h : k ≠ a) :
    (t.insert k v)[a]? = t[a]? := by
  rw [get_insert, if_neg h]

/-- Writing back the value that is there changes nothing. -/
theorem insert_self {t : Table K V} {k : K} {v : V} (h : t[k]? = some v) :
    t.insert k v = t := by
  apply Std.ExtTreeMap.ext_getElem?
  intro a
  rw [get_insert]
  split
  · rename_i hka
    rw [← hka, h]
  · rfl

/-- Every entry of `t` is an entry of `t'`. -/
def Extends (t t' : Table K V) : Prop :=
  ∀ (k : K) (v : V), t[k]? = some v → t'[k]? = some v

theorem extends_insert_iff (t : Table K V) (k : K) (v : V) :
    t.Extends (t.insert k v) ↔ ∀ v', t[k]? = some v' → v' = v := by
  constructor
  · intro h v' hv'
    have hnew := h k v' hv'
    rw [get_insert, if_pos rfl] at hnew
    exact (Option.some.inj hnew).symm
  · intro h a v' hv'
    rw [get_insert]
    split
    · rename_i hka
      subst hka
      rw [h v' hv']
    · exact hv'

theorem get_erase (t : Table K V) (k a : K) :
    (t.erase k)[a]? = if k = a then none else t[a]? := by
  rw [Std.ExtTreeMap.getElem?_erase]
  simp only [Std.LawfulEqCmp.compare_eq_iff_eq]

/-- Write `f` of the value of `k` back under `k`.  A key without a value is
left alone. -/
def modifyAt (t : Table K V) (k : K) (f : V → V) : Table K V :=
  match t[k]? with
  | none => t
  | some v => t.insert k (f v)

theorem get_modifyAt (t : Table K V) (k a : K) (f : V → V) :
    (t.modifyAt k f)[a]? = if k = a then t[a]?.map f else t[a]? := by
  unfold modifyAt
  cases hk : t[k]? with
  | none =>
    by_cases h : k = a
    · subst h
      simp [hk]
    · simp [h]
  | some v =>
    rw [get_insert]
    by_cases h : k = a
    · subst h
      simp [hk]
    · simp [h]

/-- A list of writes applies `f` to the value of a key once for each time
the list names the key. -/
theorem get_foldl_modifyAt (f : V → V) (ks : List K) (t : Table K V) (a : K) :
    (ks.foldl (fun t k => t.modifyAt k f) t)[a]?
      = t[a]?.map (f^[ks.count a]) := by
  induction ks generalizing t with
  | nil => simp
  | cons k ks ih =>
    rw [List.foldl_cons, ih, get_modifyAt]
    by_cases h : k = a
    · subst h
      rw [if_pos rfl, List.count_cons_self, Option.map_map,
        Function.iterate_succ]
    · rw [if_neg h, List.count_cons_of_ne h]

/-- Entries with distinct keys are all found after a fold of inserts, and
nothing else changes. -/
theorem get_foldl_insert {A : Type} (key : A → K) (val : A → V) (xs : List A)
    (t : Table K V) (hd : (xs.map key).Nodup) (a : K) :
    (xs.foldl (fun t x => t.insert (key x) (val x)) t)[a]?
      = ((xs.find? fun x => key x = a).map val).or t[a]? := by
  induction xs generalizing t with
  | nil => simp
  | cons x xs ih =>
    rw [List.map_cons, List.nodup_cons] at hd
    rw [List.foldl_cons, ih _ hd.2]
    by_cases h : key x = a
    · have hnone : xs.find? (fun y => key y = a) = none := by
        rw [List.find?_eq_none]
        intro y hy hya
        have hya' : key y = a := by simpa using hya
        exact hd.1 (List.mem_map.mpr ⟨y, hy, hya'.trans h.symm⟩)
      rw [hnone, List.find?_cons_of_pos (by simpa using h), get_insert, if_pos h]
      rfl
    · rw [List.find?_cons_of_neg (by simpa using h), get_insert_ne _ _ h]

omit [DecidableEq K] in
/-- The keys after a run of insertions. -/
theorem mem_foldl_insert {A : Type} (key : A → K) (val : A → V) (xs : List A)
    (t : Table K V) (a : K) :
    a ∈ xs.foldl (fun t x => t.insert (key x) (val x)) t ↔
      a ∈ t ∨ ∃ x ∈ xs, key x = a := by
  induction xs generalizing t with
  | nil => simp
  | cons x xs ih =>
    rw [List.foldl_cons, ih, Std.ExtTreeMap.mem_insert]
    simp only [Std.LawfulEqCmp.compare_eq_iff_eq, List.exists_mem_cons_iff]
    tauto

/-- A value after insertions of one value. -/
theorem get_foldl_insert_const {A : Type} (key : A → K) (v : V) (xs : List A)
    (t : Table K V) {a : K} {x : V}
    (h : (xs.foldl (fun t x => t.insert (key x) v) t)[a]? = some x) :
    t[a]? = some x ∨ x = v := by
  induction xs generalizing t with
  | nil => exact .inl h
  | cons y xs ih =>
    rcases ih (t.insert (key y) v) h with hold | hnew
    · rw [get_insert] at hold
      split at hold
      · exact .inr (Option.some.inj hold).symm
      · exact .inl hold
    · exact .inr hnew

omit [Ord K] [Std.TransOrd K] [Std.LawfulEqOrd K] in
/-- Among entries with distinct keys, an entry is found under its key. -/
theorem find_of_nodup {entries : List (K × V)} (hd : (entries.map (·.1)).Nodup)
    {e : K × V} (he : e ∈ entries) :
    entries.find? (fun x => x.1 = e.1) = some e := by
  obtain ⟨x, hx⟩ := Option.isSome_iff_exists.mp
    (List.find?_isSome.mpr ⟨e, he, by simp⟩ :
      (entries.find? fun x => x.1 = e.1).isSome)
  have hkey : x.1 = e.1 := by simpa using List.find?_some hx
  rw [hx, List.inj_on_of_nodup_map hd (List.mem_of_find?_eq_some hx) he hkey]

theorem find_toList (t : Table K V) (k : K) :
    t.toList.find? (fun e => e.1 = k) = t[k]?.map (k, ·) := by
  cases hk : t[k]? with
  | none =>
    rw [Option.map_none, List.find?_eq_none]
    intro e he hek
    have hkey : e.1 = k := by simpa using hek
    rw [mem_toList_iff, hkey, hk] at he
    cases he
  | some v =>
    exact find_of_nodup (nodup_toList t) (e := (k, v)) ((mem_toList_iff t (k, v)).mpr hk)

omit [Ord K] [Std.TransOrd K] [Std.LawfulEqOrd K] in
/-- A list that only one of the entries with distinct keys contributes to. -/
theorem filterMap_of_key {A : Type} {entries : List (K × V)} (hd : (entries.map (·.1)).Nodup)
    {k : K} {f : K × V → Option A} (hf : ∀ e ∈ entries, e.1 ≠ k → f e = none) :
    entries.filterMap f = ((entries.find? fun e => e.1 = k).bind f).toList := by
  induction entries with
  | nil => rfl
  | cons e entries ih =>
    rw [List.map_cons, List.nodup_cons] at hd
    rw [List.forall_mem_cons] at hf
    by_cases hek : e.1 = k
    · have hrest : entries.filterMap f = [] := by
        rw [List.filterMap_eq_nil_iff]
        intro x hx
        exact hf.2 x hx fun hxk => hd.1 (List.mem_map.mpr ⟨x, hx, hxk.trans hek.symm⟩)
      rw [List.find?_cons_of_pos (by simpa using hek), Option.bind_some]
      cases hfe : f e with
      | none => rw [List.filterMap_cons_none hfe, hrest, Option.toList_none]
      | some a => rw [List.filterMap_cons_some hfe, hrest, Option.toList_some]
    · rw [List.find?_cons_of_neg (by simpa using hek), List.filterMap_cons_none (hf.1 hek),
        ih hd.2 hf.2]

theorem filterMap_toList_of_key {A : Type} (t : Table K V) {k : K} {f : K × V → Option A}
    (hf : ∀ a v, t[a]? = some v → a ≠ k → f (a, v) = none) :
    t.toList.filterMap f = (t[k]?.bind fun v => f (k, v)).toList := by
  rw [filterMap_of_key (nodup_toList t) fun e he => hf e.1 e.2 ((mem_toList_iff t e).mp he),
    find_toList]
  cases t[k]? <;> rfl

omit [DecidableEq K] in
/-- The entries that pass a test, of two tables that agree on them. -/
theorem filter_toList_congr {t t' : Table K V} {p : V → Prop} [DecidablePred p]
    (h : ∀ (k : K) (v : V), p v → (t[k]? = some v ↔ t'[k]? = some v)) :
    t.toList.filter (fun e => p e.2) = t'.toList.filter (fun e => p e.2) := by
  have hget : ∀ (t : Table K V) (k : K) (v : V),
      (t.filter fun _ v => decide (p v))[k]? = some v ↔ t[k]? = some v ∧ p v := by
    intro t k v
    rw [← mem_toList_iff _ (k, v), Std.ExtTreeMap.toList_filter, List.mem_filter, mem_toList_iff,
      decide_eq_true_eq]
  have heq : (t.filter fun _ v => decide (p v)) = t'.filter fun _ v => decide (p v) := by
    refine Std.ExtTreeMap.ext_getElem? fun k => Option.ext fun v => ?_
    rw [hget, hget, and_congr_left_iff]
    exact h k v
  simpa only [Std.ExtTreeMap.toList_filter] using congrArg Std.ExtTreeMap.toList heq

omit [Ord K] [Std.TransOrd K] [Std.LawfulEqOrd K] in
/-- A sum over the entries outside of `seen` splits off one entry. -/
theorem sum_filter_cons {entries : List (K × V)} (hd : (entries.map (·.1)).Nodup)
    {e : K × V} (he : e ∈ entries) {seen : List K} (hseen : e.1 ∉ seen)
    (size : V → Nat) :
    ((entries.filter (·.1 ∉ seen)).map (size ·.2)).sum
      = size e.2 + ((entries.filter (·.1 ∉ e.1 :: seen)).map (size ·.2)).sum := by
  induction entries with
  | nil => cases he
  | cons x entries ih =>
    rw [List.map_cons, List.nodup_cons] at hd
    rcases List.mem_cons.mp he with rfl | hin
    · -- No other entry has the key of `e`.
      have hrest : entries.filter (·.1 ∉ e.1 :: seen)
          = entries.filter (·.1 ∉ seen) := by
        apply List.filter_congr
        intro y hy
        have hne : y.1 ≠ e.1 := fun h => hd.1 (List.mem_map.mpr ⟨y, hy, h⟩)
        simp [hne]
      rw [List.filter_cons_of_pos (by simpa using hseen),
        List.filter_cons_of_neg (by simp), hrest, List.map_cons, List.sum_cons]
    · have hne : x.1 ≠ e.1 := fun h => hd.1 (List.mem_map.mpr ⟨e, hin, h.symm⟩)
      by_cases hx : x.1 ∈ seen
      · rw [List.filter_cons_of_neg (by simpa using hx),
          List.filter_cons_of_neg (by simp [hx])]
        exact ih hd.2 hin
      · rw [List.filter_cons_of_pos (by simpa using hx),
          List.filter_cons_of_pos (by simp [hx, hne]), List.map_cons, List.map_cons,
          List.sum_cons, List.sum_cons, ih hd.2 hin]
        omega

/-- A fold of deletions forgets exactly the keys it lists. -/
theorem get_foldl_erase (ks : List K) (t : Table K V) (a : K) :
    (ks.foldl (fun t k => t.erase k) t)[a]?
      = if a ∈ ks then none else t[a]? := by
  induction ks generalizing t with
  | nil => simp
  | cons k ks ih =>
    rw [List.foldl_cons, ih, get_erase]
    by_cases h : k = a
    · simp [h]
    · have h' : a ≠ k := fun e => h e.symm
      simp [h, h']

end Table

end DagScheduler.Lib
