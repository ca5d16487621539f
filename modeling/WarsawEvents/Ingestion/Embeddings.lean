import WarsawEvents.Foundations.Batches
import Mathlib.Data.List.Perm.Subperm
import Mathlib.Data.List.Sort
import Mathlib.Data.Rat.Cast.Order

/-! # Which vector belongs to which text

`_embed` asks for the texts sixteen at a time, sorts each answer by `index` and compares the number of
all vectors with the number of texts. Whatever the answers, it raises or attributes the vectors rightly
exactly where each answer has the indices of its batch, once each; the comparison alone lets answers
through that have an index twice.
-/

namespace WarsawEvents.Ingestion
set_option autoImplicit false

def batchSize : ℕ := 16

namespace Embeddings

open Batches (batch count)

/-- An entry of `data`. -/
structure Datum (β : Type) where
  index : ℚ
  embedding : β
  deriving DecidableEq

inductive EmbedError where
  | keyMissing
  | post (detail : String)
  | returned (vectors texts : ℕ)
  deriving DecidableEq, Repr

variable {β : Type} (post : ℕ → List String → Except EmbedError (List (Datum β)))
  (texts : List String)

/-- `sorted(data["data"], key=lambda d: d["index"])`, which is stable. -/
def ordered (data : List (Datum β)) : List (Datum β) :=
  data.insertionSort fun a b => a.index ≤ b.index

/-- The body of the loop; `post` is `_post_with_retry`, by the number of the call. -/
def extend (vectors : List β) (k : ℕ) : Except EmbedError (List β) := do
  let data ← post k (batch batchSize texts k)
  pure (vectors ++ (ordered data).map Datum.embedding)

/-- `_embed`. -/
def embed (apiKey : Bool) : Except EmbedError (List β) :=
  if !apiKey then .error .keyMissing
  else do
    let vectors ← (List.range (count batchSize texts)).foldlM (extend post texts) []
    if vectors.length ≠ texts.length then .error (.returned vectors.length texts.length)
    else pure vectors

/-! ## Attribution -/

/-- Every text has the vector of the entry with its place in the batch, and that index is there once. -/
def Attributed (vectors : List β) : Prop :=
  ∀ i < texts.length, ∃ data d,
    post (i / batchSize) (batch batchSize texts (i / batchSize)) = .ok data ∧
    (data.filter fun d => d.index = ((i % batchSize : ℕ) : ℚ)) = [d] ∧ vectors[i]? = some d.embedding

/-- The answer to a batch; no entries where the call raises. -/
def answered (k : ℕ) : List (Datum β) :=
  match post k (batch batchSize texts k) with
  | .ok data => data
  | .error _ => []

/-- `_embed` raises: no key, a call that raises, or a wrong number of vectors in all. -/
def Raises (apiKey : Bool) : Prop :=
  apiKey = false ∨ (∃ k < count batchSize texts, ∃ e, post k (batch batchSize texts k) = .error e) ∨
    ((List.range (count batchSize texts)).flatMap (answered post texts)).length ≠ texts.length

/-- The places of a batch, as indices. -/
def places (n : ℕ) : List ℚ := (List.range n).map fun j : ℕ => (j : ℚ)

/-- Each answer has the places of its batch for indices, once each. -/
def Exact : Prop :=
  ∀ k < count batchSize texts, ((answered post texts k).map Datum.index).Perm
    (places (batch batchSize texts k).length)

variable {post texts} {vectors : List β} {data : List (Datum β)}

/-! ## The loop -/

theorem foldlM_extend (ks : List ℕ) (hok : ∀ k ∈ ks, ∃ data, post k (batch batchSize texts k) = .ok data)
    (vectors : List β) : ks.foldlM (extend post texts) vectors
      = .ok (vectors ++ ks.flatMap fun k => (ordered (answered post texts k)).map Datum.embedding) := by
  induction ks generalizing vectors with
  | nil => simp [pure, Except.pure]
  | cons k ks ih =>
    obtain ⟨⟨data, hdata⟩, hrest⟩ := List.forall_mem_cons.mp hok
    have hstep : extend post texts vectors k
        = .ok (vectors ++ (ordered (answered post texts k)).map Datum.embedding) := by
      simp [extend, answered, hdata, bind, Except.bind, pure, Except.pure]
    rw [List.foldlM_cons, hstep]
    show ks.foldlM (extend post texts) _ = _
    rw [ih hrest, List.flatMap_cons, List.append_assoc]

theorem foldlM_extend_error (ks : List ℕ) {k : ℕ} (hk : k ∈ ks) {e : EmbedError}
    (he : post k (batch batchSize texts k) = .error e) (vectors : List β) :
    ∃ e, ks.foldlM (extend post texts) vectors = .error e := by
  induction ks generalizing vectors with
  | nil => cases hk
  | cons k' ks ih =>
    rw [List.foldlM_cons]
    cases hstep : extend post texts vectors k' with
    | error e' => exact ⟨e', rfl⟩
    | ok vectors' =>
      rcases List.mem_cons.mp hk with rfl | hk
      · simp [extend, he, bind, Except.bind] at hstep
      · exact ih hk vectors'

theorem length_ordered (data : List (Datum β)) : (ordered data).length = data.length :=
  List.length_insertionSort _ data

theorem length_vectors (ks : List ℕ) :
    (ks.flatMap fun k => (ordered (answered post texts k)).map Datum.embedding).length
      = (ks.flatMap (answered post texts)).length := by
  induction ks with
  | nil => rfl
  | cons k ks ih =>
    rw [List.flatMap_cons, List.flatMap_cons, List.length_append, List.length_append, ih,
      List.length_map, length_ordered]

theorem exists_answer {k : ℕ} (h : ∀ e, post k (batch batchSize texts k) ≠ .error e) :
    ∃ data, post k (batch batchSize texts k) = .ok data := by
  cases hpost : post k (batch batchSize texts k) with
  | ok data => exact ⟨data, rfl⟩
  | error e => exact absurd hpost (h e)

/-- What `_embed` returns, and when it does. -/
theorem embed_ok_iff (apiKey : Bool) : embed post texts apiKey = .ok vectors ↔
    ¬Raises post texts apiKey ∧ vectors = (List.range (count batchSize texts)).flatMap fun k =>
      (ordered (answered post texts k)).map Datum.embedding := by
  cases apiKey with
  | false => simp [embed, Raises]
  | true =>
    by_cases herror : ∃ k < count batchSize texts, ∃ e, post k (batch batchSize texts k) = .error e
    · obtain ⟨k, hk, e, he⟩ := herror
      obtain ⟨e', hloop⟩ := foldlM_extend_error (List.range _) (List.mem_range.mpr hk) he []
      have hraises : Raises post texts true := .inr (.inl ⟨k, hk, e, he⟩)
      simp [embed, hloop, bind, Except.bind, hraises]
    · have hok : ∀ k ∈ List.range (count batchSize texts),
          ∃ data, post k (batch batchSize texts k) = .ok data := by
        intro k hk
        exact exists_answer fun e he => herror ⟨k, List.mem_range.mp hk, e, he⟩
      have hraises : Raises post texts true ↔
          ((List.range (count batchSize texts)).flatMap (answered post texts)).length
            ≠ texts.length := by
        simp [Raises, herror]
      have hlength := @length_vectors β post texts (List.range (count batchSize texts))
      have hloop := foldlM_extend _ hok []
      rw [List.nil_append] at hloop
      rw [hraises, ← hlength]
      simp only [embed, hloop, bind, Except.bind, Bool.not_true, Bool.false_eq_true, if_false]
      generalize ((List.range (count batchSize texts)).flatMap fun k =>
        (ordered (answered post texts k)).map Datum.embedding) = all
      split
      next hne => simp [hne]
      next heq => simp [heq, pure, Except.pure, eq_comm]

/-! ## One answer -/

theorem nodup_places (n : ℕ) : (places n).Nodup :=
  List.nodup_range.map Nat.cast_injective

theorem getElem?_places {n j : ℕ} (h : j < n) : (places n)[j]? = some (j : ℚ) := by
  simp [places, h]

/-- Sorted, an exact answer has its entries at their own places. -/
theorem ordered_places {n : ℕ} (h : (data.map Datum.index).Perm (places n)) :
    (ordered data).map Datum.index = places n := by
  have hperm : ((ordered data).map Datum.index).Perm (places n) :=
    ((List.perm_insertionSort _ data).map _).trans h
  have hsorted : ((ordered data).map Datum.index).Pairwise (· ≤ ·) := by
    have htotal : Std.Total fun a b : Datum β => a.index ≤ b.index := ⟨fun a b => le_total _ _⟩
    have htrans : IsTrans (Datum β) fun a b => a.index ≤ b.index := ⟨fun a b c => le_trans⟩
    exact List.pairwise_map.mpr (List.pairwise_insertionSort _ data)
  have hplaces : (places n).Pairwise (· ≤ ·) :=
    List.pairwise_map.mpr (List.pairwise_le_range.imp fun hab => Nat.cast_le.mpr hab)
  exact hperm.eq_of_pairwise' hsorted hplaces

theorem exact_answer {n j : ℕ} (h : (data.map Datum.index).Perm (places n)) (hj : j < n) :
    ∃ d, (data.filter fun d => d.index = (j : ℚ)) = [d] ∧ (ordered data)[j]? = some d := by
  have hindex : ((ordered data)[j]?).map Datum.index = some (j : ℚ) := by
    rw [← List.getElem?_map, ordered_places h, getElem?_places hj]
  obtain ⟨d, hd, hdj⟩ := Option.map_eq_some_iff.mp hindex
  have hmem : d ∈ data.filter fun d => d.index = (j : ℚ) :=
    List.mem_filter.mpr ⟨(List.mem_insertionSort _).mp (List.mem_of_getElem? hd), by simpa using hdj⟩
  have hcount : (data.filter fun d => d.index = (j : ℚ)).length = 1 := by
    have hplace : (j : ℚ) ∈ places n := List.mem_of_getElem? (getElem?_places hj)
    calc (data.filter fun d => d.index = (j : ℚ)).length
        = (data.map Datum.index).count (j : ℚ) := by
          rw [← List.countP_eq_length_filter, List.count, List.countP_map]
          rfl
      _ = (places n).count (j : ℚ) := h.count_eq _
      _ = 1 := List.count_eq_one_of_mem (nodup_places n) hplace
  obtain ⟨d', hd'⟩ := List.length_eq_one_iff.mp hcount
  rw [hd', List.mem_singleton] at hmem
  exact ⟨d, by rw [hd', hmem], hd⟩

/-- With every place once, an answer has no fewer entries than there are places. -/
theorem subperm_places {n : ℕ}
    (h : ∀ j < n, ∃ d, (data.filter fun d => d.index = (j : ℚ)) = [d]) :
    (places n).Subperm (data.map Datum.index) := by
  refine List.subperm_of_subset (nodup_places n) fun i hi => ?_
  obtain ⟨j, hj, rfl⟩ := List.mem_map.mp hi
  obtain ⟨d, hd⟩ := h j (List.mem_range.mp hj)
  have hmem : d ∈ data.filter fun d => d.index = (j : ℚ) := hd ▸ List.mem_singleton_self d
  obtain ⟨hdata, hindex⟩ := List.mem_filter.mp hmem
  exact List.mem_map.mpr ⟨d, hdata, by simpa using hindex⟩

/-! ## All answers -/

theorem answered_eq {k : ℕ} (h : post k (batch batchSize texts k) = .ok data) :
    answered post texts k = data := by
  rw [answered, h]

theorem attributed_of_exact (hexact : Exact post texts)
    (hok : ∀ k < count batchSize texts, ∃ data, post k (batch batchSize texts k) = .ok data) :
    Attributed post texts ((List.range (count batchSize texts)).flatMap fun k =>
      (ordered (answered post texts k)).map Datum.embedding) := by
  intro i hi
  have hbatch : i / batchSize < count batchSize texts := by
    refine (Batches.lt_count (by decide)).mpr ?_
    exact Nat.lt_of_le_of_lt (Nat.mul_div_le i batchSize) hi
  have hplace : i % batchSize < batchSize := Nat.mod_lt i (by decide)
  have hsplit : batchSize * (i / batchSize) + i % batchSize = i := Nat.div_add_mod i batchSize
  have hinside : i % batchSize < (batch batchSize texts (i / batchSize)).length := by
    rw [Batches.length_batch]
    omega
  have hlength : ∀ k < count batchSize texts,
      ((ordered (answered post texts k)).map Datum.embedding).length
        = (batch batchSize texts k).length := by
    intro k hk
    rw [List.length_map, length_ordered]
    simpa [places] using (hexact k hk).length_eq
  have hfull : ∀ k < i / batchSize,
      ((ordered (answered post texts k)).map Datum.embedding).length = batchSize := by
    intro k hk
    rw [hlength k (by omega), Batches.length_batch_full (by decide) (by omega)]
  obtain ⟨data, hdata⟩ := hok _ hbatch
  obtain ⟨d, hd, hordered⟩ := exact_answer (hexact _ hbatch) hinside
  refine ⟨data, d, hdata, by rw [← answered_eq hdata]; exact hd, ?_⟩
  have hget := Batches.getElem?_flatMap hbatch hfull
    (by rw [hlength _ hbatch]; exact hinside : i % batchSize < _)
  rw [hsplit] at hget
  rw [hget, List.getElem?_map, hordered]
  rfl

theorem exact_of_attributed (hattributed : Attributed post texts vectors)
    (htotal : ((List.range (count batchSize texts)).flatMap (answered post texts)).length
      = texts.length) : Exact post texts := by
  have hsub : ∀ k < count batchSize texts, (places (batch batchSize texts k).length).Subperm
      ((answered post texts k).map Datum.index) := by
    intro k hk
    refine subperm_places fun j hj => ?_
    rw [Batches.length_batch] at hj
    have hi : batchSize * k + j < texts.length := by omega
    have hdiv : (batchSize * k + j) / batchSize = k := by
      rw [Nat.mul_add_div (by decide), Nat.div_eq_of_lt (by omega), Nat.add_zero]
    have hmod : (batchSize * k + j) % batchSize = j := by
      rw [Nat.mul_add_mod, Nat.mod_eq_of_lt (by omega)]
    obtain ⟨data, d, hdata, hd, -⟩ := hattributed _ hi
    rw [hdiv] at hdata
    rw [hmod] at hd
    exact ⟨d, by rw [answered_eq hdata]; exact hd⟩
  have hshort : ∀ k < count batchSize texts,
      (batch batchSize texts k).length ≤ (answered post texts k).length := by
    intro k hk
    simpa [places] using (hsub k hk).length_le
  have hlong := Batches.length_le_of_flatMap hshort
    (by rw [htotal, Batches.flatMap_count (by decide)])
  intro k hk
  refine ((hsub k hk).perm_of_length_le ?_).symm
  simpa [places] using hlong k hk

/-- Whatever the service answers, `_embed` raises or attributes every vector to its own text exactly
where it raises or every answer has the places of its batch, once each. -/
theorem vectors_attributed_iff (post : ℕ → List String → Except EmbedError (List (Datum β)))
    (texts : List String) (apiKey : Bool) :
    (∀ vectors, embed post texts apiKey = .ok vectors → Attributed post texts vectors) ↔
      Raises post texts apiKey ∨ Exact post texts := by
  constructor
  · intro h
    by_cases hraises : Raises post texts apiKey
    · exact .inl hraises
    · refine .inr (exact_of_attributed (h _ ((embed_ok_iff apiKey).mpr ⟨hraises, rfl⟩)) ?_)
      by_contra hne
      exact hraises (.inr (.inr hne))
  · intro h vectors hrun
    obtain ⟨hraises, rfl⟩ := (embed_ok_iff apiKey).mp hrun
    refine attributed_of_exact (h.resolve_left hraises) fun k hk => ?_
    exact exists_answer fun e he => hraises (.inr (.inl ⟨k, hk, e, he⟩))

/-- Two entries for the first of two texts: as many as there are texts. -/
def twiceTheFirst (_ : ℕ) (_ : List String) : Except EmbedError (List (Datum ℕ)) :=
  .ok [⟨0, 10⟩, ⟨0, 20⟩]

theorem misattributed_vector : ¬∀ (post : ℕ → List String → Except EmbedError (List (Datum ℕ)))
    (texts : List String) (vectors : List ℕ),
    embed post texts true = .ok vectors → Attributed post texts vectors := by
  intro h
  have hrun : embed twiceTheFirst ["Kora", "Maanam"] true = .ok [10, 20] := by decide +kernel
  obtain ⟨data, d, hdata, hd, -⟩ := h _ _ _ hrun 0 (by decide)
  obtain rfl := Except.ok.inj hdata
  simp at hd

end Embeddings

end WarsawEvents.Ingestion
