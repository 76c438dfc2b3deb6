import DagScheduler.Lib.Table

/-!
# Tables in another representation

A table may be kept in another form: `Table.encode f g` puts `g v` under `f k`
for every entry.  If `f` keeps the order of the keys, nothing is lost but the
names.  A lookup finds the new form of the value (`get_encode`), a write can be
made before or after the change (`encode_insert`), and the entries are listed in the
same order (`toList_encode`).
-/

namespace DagScheduler.Lib

variable {K K' V V' : Type} [Ord K] [Std.TransOrd K] [Std.LawfulEqOrd K]
  [Ord K'] [Std.TransOrd K'] [Std.LawfulEqOrd K']

/-- Two keys compare as before. -/
def KeepsOrder (f : K → K') : Prop := ∀ a b, compare (f a) (f b) = compare a b

omit [Std.TransOrd K] [Std.TransOrd K'] in
theorem KeepsOrder.injective {f : K → K'} (hf : KeepsOrder f) : Function.Injective f := by
  intro a b hab
  have hcmp := hf a b
  rw [hab, Std.compare_self] at hcmp
  exact Std.LawfulEqOrd.eq_of_compare hcmp.symm

namespace Table

/-- Every key and every value in another form. -/
def encode (f : K → K') (g : V → V') (t : Table K V) : Table K' V' :=
  t.toList.foldl (fun d e => d.insert (f e.1) (g e.2)) ∅

variable {f : K → K'} (hf : KeepsOrder f) (g : V → V') (t : Table K V)
include hf

omit [Std.TransOrd K'] in
private theorem find_encode [DecidableEq K] [DecidableEq K'] (k : K) :
    t.toList.find? (fun e => f e.1 = f k) = t[k]?.map (k, ·) := by
  rw [← find_toList]
  congr
  funext e
  exact decide_eq_decide.mpr hf.injective.eq_iff

theorem get_encode (k : K) : (encode f g t)[f k]? = t[k]?.map g := by
  classical
  have hnodup : (t.toList.map fun e => f e.1).Nodup := by
    have hmap := (nodup_toList t).map hf.injective
    rwa [List.map_map] at hmap
  rw [encode, get_foldl_insert (fun e : K × V => f e.1) (fun e => g e.2) _ _ hnodup,
    find_encode hf]
  cases t[k]? <;> rfl

omit hf [Std.LawfulEqOrd K] in
/-- Only keys in the new form are there. -/
theorem get_encode_of_forall_ne {k' : K'} (hk : ∀ k, f k ≠ k') : (encode f g t)[k']? = none := by
  rw [← not_mem_iff_get, encode,
    mem_foldl_insert (fun e : K × V => f e.1) (fun e => g e.2)]
  rintro (hempty | ⟨e, _, he⟩)
  · simp at hempty
  · exact hk e.1 he

/-- Two tables that agree on the keys in the new form, and have no other keys,
are the same. -/
private theorem encode_ext {d : Table K' V'} (hget : ∀ k, d[f k]? = t[k]?.map g)
    (hrange : ∀ k', (∀ k, f k ≠ k') → d[k']? = none) : encode f g t = d := by
  apply Std.ExtTreeMap.ext_getElem?
  intro k'
  by_cases hk : ∃ k, f k = k'
  · obtain ⟨k, rfl⟩ := hk
    rw [get_encode hf, hget]
  · have hne : ∀ k, f k ≠ k' := fun k h => hk ⟨k, h⟩
    rw [get_encode_of_forall_ne g t hne, hrange k' hne]

theorem encode_insert (k : K) (v : V) :
    encode f g (t.insert k v) = (encode f g t).insert (f k) (g v) := by
  classical
  apply encode_ext hf
  · intro a
    rw [get_insert, get_insert, get_encode hf]
    by_cases hka : k = a
    · rw [if_pos hka, if_pos (congrArg f hka)]
      rfl
    · rw [if_neg hka, if_neg (hf.injective.ne hka)]
  · intro k' hk'
    rw [get_insert_ne _ _ (hk' k), get_encode_of_forall_ne g t hk']

/-- The entries are listed in the old order. -/
theorem toList_encode :
    (encode f g t).toList = t.toList.map fun e => (f e.1, g e.2) := by
  have hsorted : (t.toList.map fun e => (f e.1, g e.2)).Pairwise
      fun a b => compare a.1 b.1 = .lt := by
    rw [List.pairwise_map]
    refine Std.ExtTreeMap.ordered_keys_toList.imp ?_
    intro a b hab
    rw [hf]
    exact hab
  have hlist : (encode f g t).toList.Pairwise fun a b => compare a.1 b.1 = .lt :=
    Std.ExtTreeMap.ordered_keys_toList
  refine List.Perm.eq_of_pairwise ?_ hlist hsorted ?_
  · intro a b _ _ hab hba
    rw [Std.OrientedOrd.eq_swap, hba] at hab
    cases hab
  · rw [List.perm_ext_iff_of_nodup]
    · rintro ⟨k', v'⟩
      rw [mem_toList_iff, List.mem_map]
      constructor
      · intro hget
        by_cases hk : ∃ k, f k = k'
        · obtain ⟨k, rfl⟩ := hk
          rw [get_encode hf, Option.map_eq_some_iff] at hget
          obtain ⟨v, hv, rfl⟩ := hget
          exact ⟨(k, v), (mem_toList_iff t (k, v)).mpr hv, rfl⟩
        · rw [get_encode_of_forall_ne g t fun k h => hk ⟨k, h⟩] at hget
          cases hget
      · rintro ⟨e, he, heq⟩
        cases heq
        rw [get_encode hf, (mem_toList_iff t e).mp he]
        rfl
    · exact (nodup_toList _).of_map _
    · exact hsorted.imp fun {a b} hab heq => by
        rw [heq, Std.compare_self] at hab
        cases hab

end Table

end DagScheduler.Lib
