import Mathlib.Data.List.Range
import Mathlib.Data.Nat.Notation

/-! # Batches

`for i in range(0, len(xs), n): xs[i : i + n]`: the batches of a list, by number, and where the element
at a place is found when each batch is answered by a list of its own.
-/

namespace Batches
set_option autoImplicit false

variable {α β : Type} (n : ℕ) (xs : List α)

/-- The batch with this number. -/
def batch (k : ℕ) : List α := (xs.drop (n * k)).take n

def count : ℕ := (xs.length + n - 1) / n

def batches : List (List α) := (List.range (count n xs)).map (batch n xs)

variable {n xs}

theorem length_batch (k : ℕ) : (batch n xs k).length = min n (xs.length - n * k) := by
  rw [batch, List.length_take, List.length_drop]

theorem lt_count (hn : 0 < n) {k : ℕ} : k < count n xs ↔ n * k < xs.length := by
  have hdiv : k < count n xs ↔ (k + 1) * n ≤ xs.length + n - 1 := Nat.le_div_iff_mul_le hn
  rw [hdiv, Nat.add_one_mul, Nat.mul_comm]
  omega

/-- Every batch but the last is full. -/
theorem length_batch_full (hn : 0 < n) {k : ℕ} (h : k + 1 < count n xs) :
    (batch n xs k).length = n := by
  have hnext : n * (k + 1) < xs.length := (lt_count hn).mp h
  rw [Nat.mul_succ] at hnext
  rw [length_batch]
  omega

theorem flatMap_batch (m : ℕ) : (List.range m).flatMap (batch n xs) = xs.take (n * m) := by
  induction m with
  | zero => simp
  | succ m ih => rw [List.range_succ, List.flatMap_append, ih, Nat.mul_succ, List.take_add]; simp [batch]

/-- The batches are the list. -/
theorem flatMap_count (hn : 0 < n) : (List.range (count n xs)).flatMap (batch n xs) = xs := by
  rw [flatMap_batch]
  have hover : ¬ n * count n xs < xs.length := fun h => Nat.lt_irrefl _ ((lt_count hn).mpr h)
  exact List.take_of_length_le (by omega)

theorem mem_batches (hn : 0 < n) {x : α} : (∃ b ∈ batches n xs, x ∈ b) ↔ x ∈ xs := by
  have hflat : (batches n xs).flatten = xs := flatMap_count hn
  rw [← List.mem_flatten, hflat]

/-! ## A map filled batch by batch -/

section Fill

variable {κ υ ε : Type} {known : κ → Option υ}
  {step : (κ → Option υ) → List κ → Except ε (κ → Option υ)}

/-- What is in the map is known. -/
def Within (known entries : κ → Option υ) : Prop := ∀ k, entries k = none ∨ entries k = known k

/-- A step answers for its batch, and adds nothing that is not known. -/
def Fills (known : κ → Option υ) (step : (κ → Option υ) → List κ → Except ε (κ → Option υ)) : Prop :=
  ∀ entries b, Within known entries → ∃ entries', step entries b = .ok entries' ∧
    (∀ k ∈ b, entries' k = known k) ∧ ∀ k, entries' k = entries k ∨ entries' k = known k

theorem foldlM_fills (hstep : Fills known step) (bs : List (List κ)) (entries : κ → Option υ)
    (h : Within known entries) : ∃ entries', bs.foldlM step entries = .ok entries' ∧
      ∀ k, (entries k = known k ∨ ∃ b ∈ bs, k ∈ b) → entries' k = known k := by
  induction bs generalizing entries with
  | nil => exact ⟨entries, rfl, fun k hk => by simpa using hk⟩
  | cons b bs ih =>
    obtain ⟨first, hfirst, hbatch, hkeep⟩ := hstep entries b h
    have hwithin : Within known first := by
      intro k
      rcases hkeep k with hk | hk
      · exact hk ▸ h k
      · exact .inr hk
    obtain ⟨last, hlast, hknown⟩ := ih first hwithin
    refine ⟨last, ?_, fun k hk => hknown k ?_⟩
    · rw [List.foldlM_cons, hfirst]
      exact hlast
    · rcases hk with hk | ⟨b', hb', hk⟩
      · exact .inl ((hkeep k).elim (fun hsame => hsame.trans hk) id)
      · rcases List.mem_cons.mp hb' with rfl | hb'
        · exact .inl (hbatch k hk)
        · exact .inr ⟨b', hb', hk⟩

/-- From an empty map, every key of the list gets what is known of it. -/
theorem foldlM_batches {n : ℕ} (keys : List κ) (hn : 0 < n) (hstep : Fills known step) :
    ∃ entries, (batches n keys).foldlM step (fun _ => none) = .ok entries ∧
      ∀ k ∈ keys, entries k = known k := by
  obtain ⟨entries, hrun, hknown⟩ := foldlM_fills hstep (batches n keys) (fun _ => none) fun _ => .inl rfl
  exact ⟨entries, hrun, fun k hk => hknown k (.inr ((mem_batches hn).mpr hk))⟩

end Fill

/-! ## Answers in the order of the batches -/

theorem length_flatMap_full {f : ℕ → List β} {m : ℕ} (h : ∀ k < m, (f k).length = n) :
    ((List.range m).flatMap f).length = n * m := by
  induction m with
  | zero => rfl
  | succ m ih =>
    rw [List.range_succ, List.flatMap_append, List.length_append, ih fun k hk => h k (by omega),
      List.flatMap_singleton, h m (by omega), Nat.mul_succ]

/-- After `k` full answers comes the one of batch `k`. -/
theorem getElem?_flatMap {f : ℕ → List β} {m k j : ℕ} (hk : k < m) (hfull : ∀ i < k, (f i).length = n)
    (hj : j < (f k).length) : ((List.range m).flatMap f)[n * k + j]? = (f k)[j]? := by
  obtain ⟨rest, hrest⟩ : ∃ rest, List.range m = List.range k ++ k :: rest := by
    obtain ⟨d, rfl⟩ := Nat.exists_eq_add_of_lt hk
    refine ⟨((List.range d).map Nat.succ).map (k + ·), ?_⟩
    rw [Nat.add_assoc, List.range_add, List.range_succ_eq_map]
    rfl
  have hfront := length_flatMap_full hfull
  rw [hrest, List.flatMap_append, List.flatMap_cons, List.getElem?_append_right (by omega), hfront,
    Nat.add_sub_cancel_left, List.getElem?_append_left hj]

theorem length_flatMap_le {f : ℕ → List α} {g : ℕ → List β} {m : ℕ}
    (h : ∀ k < m, (f k).length ≤ (g k).length) :
    ((List.range m).flatMap f).length ≤ ((List.range m).flatMap g).length := by
  induction m with
  | zero => exact Nat.le_refl _
  | succ m ih =>
    have hfront := ih fun k hk => h k (by omega)
    have hlast := h m (Nat.lt_succ_self m)
    rw [List.range_succ, List.flatMap_append, List.flatMap_append, List.length_append,
      List.length_append, List.flatMap_singleton, List.flatMap_singleton]
    omega

/-- Answers that are nowhere too short, and together not too long, are nowhere too long. -/
theorem length_le_of_flatMap {f : ℕ → List α} {g : ℕ → List β} {m : ℕ}
    (h : ∀ k < m, (f k).length ≤ (g k).length)
    (htotal : ((List.range m).flatMap g).length ≤ ((List.range m).flatMap f).length) :
    ∀ k < m, (g k).length ≤ (f k).length := by
  induction m with
  | zero => intro k hk; omega
  | succ m ih =>
    have hfront := length_flatMap_le fun k (hk : k < m) => h k (by omega)
    have hlast := h m (Nat.lt_succ_self m)
    rw [List.range_succ, List.flatMap_append, List.flatMap_append, List.length_append,
      List.length_append, List.flatMap_singleton, List.flatMap_singleton] at htotal
    intro k hk
    rcases Nat.lt_or_ge k m with hlt | hge
    · exact ih (fun k hk => h k (by omega)) (by omega) k hlt
    · obtain rfl : k = m := by omega
      omega

end Batches
