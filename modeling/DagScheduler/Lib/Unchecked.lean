import DagScheduler.Lib.Reader

/-!
# Readers that go on after an error

Code that ignores the error of a read goes on with what the variable held
before.  `unchecked` is such a read.  A read that fails has used up the input,
so nothing is left for the reads after it.

`Restores` relates a reader to an encoding: it reads back what was written,
whatever follows, and it delivers only values that the encoding can carry.
Because something may follow or not, readers that restore can be put one after
the other, and the last one needs no special treatment.

* `Restores.bind_encode` is the rule for the first read of a sequence.
* `Restores.decode_encode_iff`: a value is read back exactly if it fits.
* `Restores.unchecked`: to ignore the error of a read does no harm.
* `Restores.counted` lifts it through a list that is written after its length.
-/

namespace DagScheduler.Lib.Reader

variable {α β : Type}

/-- Run a reader whose error the caller ignores.  The variable keeps `zero`. -/
def unchecked (zero : α) (p : Reader α) : Reader α := fun data =>
  match p data with
  | .ok out => .ok out
  | .error .panic => .error .panic
  | .error _ => .ok (zero, [])

/-- Run a reader `n` times. -/
def times (p : Reader α) : Nat → Reader (List α)
  | 0 => return []
  | n + 1 => do
    let a ← p
    return a :: (← times p n)

/-- The reader undoes the encoding.  `Fits` says which values the encoding can
carry. -/
structure Restores (p : Reader α) (encode : α → Bytes) (Fits : α → Prop) : Prop where
  read_encode : ∀ a rest, Fits a → p (encode a ++ rest) = .ok (a, rest)
  fits : ∀ data a rest, p data = .ok (a, rest) → Fits a

variable {p : Reader α} {encode : α → Bytes} {Fits : α → Prop} {data rest : Bytes}

theorem unchecked_of_ok {zero a : α} (h : p data = .ok (a, rest)) :
    unchecked zero p data = .ok (a, rest) := by
  rw [unchecked, h]

/-- An unchecked read delivers what was read, or what was there before. -/
theorem unchecked_eq_ok {zero a : α} (h : unchecked zero p data = .ok (a, rest)) :
    p data = .ok (a, rest) ∨ a = zero := by
  unfold unchecked at h
  split at h
  · rename_i hp
    exact .inl (hp.trans h)
  · cases h
  · cases h
    exact .inr rfl

/-! ## Rules -/

theorem Restores.bind_encode (h : Restores p encode Fits) {a : α} (ha : Fits a)
    (f : α → Reader β) (rest : Bytes) : (p >>= f) (encode a ++ rest) = f a rest :=
  bind_of_ok (h.read_encode a rest ha)

/-- A value alone is read back exactly if it fits. -/
theorem Restores.decode_encode_iff (h : Restores p encode Fits) {a : α} :
    (p (encode a)).map (·.1) = .ok a ↔ Fits a := by
  constructor
  · intro hdecode
    cases hread : p (encode a) with
    | error e =>
      rw [hread] at hdecode
      cases hdecode
    | ok out =>
      obtain ⟨b, rest⟩ := out
      rw [hread] at hdecode
      cases hdecode
      exact h.fits _ _ _ hread
  · intro ha
    have hread := h.read_encode a [] ha
    rw [List.append_nil] at hread
    rw [hread]
    rfl

theorem Restores.unchecked (h : Restores p encode Fits) (zero : α) (hzero : Fits zero) :
    Restores (unchecked zero p) encode Fits where
  read_encode a rest ha := unchecked_of_ok (h.read_encode a rest ha)
  fits data a rest hread := by
    rcases unchecked_eq_ok hread with hread | rfl
    · exact h.fits data a rest hread
    · exact hzero

theorem restores_readInt32 : Restores readInt32 ofInt32 fun _ => True where
  read_encode x rest _ := readInt32_append x rest
  fits _ _ _ _ := trivial

theorem restores_readInt64 : Restores readInt64 ofInt64 fun _ => True where
  read_encode x rest _ := by
    rw [readInt64, map_eq_pure_bind, bind_of_ok (readFull_append (length_ofInt64 x) rest),
      toInt64_ofInt64]
    rfl
  fits _ _ _ _ := trivial

/-- A list is read back entry by entry. -/
theorem Restores.times_encode (h : Restores p encode Fits) {l : List α}
    (hl : ∀ a ∈ l, Fits a) (rest : Bytes) :
    times p l.length ((l.map encode).flatten ++ rest) = .ok (l, rest) := by
  induction l with
  | nil => rfl
  | cons a l ih =>
    have htail := ih fun b hb => hl b (List.mem_cons_of_mem a hb)
    rw [List.map_cons, List.flatten_cons, List.append_assoc, List.length_cons, times,
      h.bind_encode (hl a List.mem_cons_self), bind_of_ok htail]
    rfl

theorem Restores.times_fits (h : Restores p encode Fits) {n : Nat} {l : List α}
    (hread : times p n data = .ok (l, rest)) : l.length = n ∧ ∀ a ∈ l, Fits a := by
  induction n generalizing data l with
  | zero =>
    cases hread
    simp
  | succ n ih =>
    rw [times, bind_eq_ok_iff] at hread
    obtain ⟨a, rest₁, ha, hread⟩ := hread
    rw [bind_eq_ok_iff] at hread
    obtain ⟨l', rest₂, htail, hret⟩ := hread
    cases hret
    obtain ⟨hlen, hall⟩ := ih htail
    exact ⟨congrArg (· + 1) hlen, List.forall_mem_cons.mpr ⟨h.fits _ _ _ ha, hall⟩⟩

/-- A list after its length, which has to have room in an `Int32`. -/
theorem Restores.counted (h : Restores p encode Fits) {count : Reader Int32}
    (hcount : Restores count ofInt32 fun _ => True) :
    Restores
      (do
        let n ← count
        let n ← makeSlice n
        times p n)
      (fun l => ofInt32 (Int32.ofNat l.length) ++ (l.map encode).flatten)
      (fun l => l.length < 2 ^ 31 ∧ ∀ a ∈ l, Fits a) where
  read_encode l rest hl := by
    have hnonneg : ¬ Int32.ofNat l.length < 0 :=
      Int32.not_lt.mpr (Int32.zero_le_ofNat_of_lt hl.1)
    rw [List.append_assoc, hcount.bind_encode trivial,
      bind_of_ok (makeSlice_of_nonneg hnonneg _), Int32.toNatClampNeg_ofNat_of_lt hl.1,
      h.times_encode hl.2]
  fits data l rest hread := by
    rw [bind_eq_ok_iff] at hread
    obtain ⟨n, rest₁, _, hread⟩ := hread
    rw [bind_eq_ok_iff] at hread
    obtain ⟨m, rest₂, hslice, hread⟩ := hread
    obtain ⟨hlen, hall⟩ := h.times_fits hread
    exact ⟨hlen ▸ makeSlice_lt hslice, hall⟩

end DagScheduler.Lib.Reader
