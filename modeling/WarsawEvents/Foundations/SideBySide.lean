import Mathlib.Data.List.Forall2

/-! # Two lists side by side

Lists of one length whose elements are related place by place: the pairs they are made of, the partner of
an element, and the list that stands beside a given one.
-/

namespace SideBySide
set_option autoImplicit false

variable {α β : Type} {R : α → β → Prop} {l : List α} {l' : List β}

theorem exists_pairs (h : List.Forall₂ R l l') :
    ∃ pairs : List (α × β), pairs.map Prod.fst = l ∧ pairs.map Prod.snd = l' ∧
      ∀ q ∈ pairs, R q.1 q.2 := by
  induction h with
  | nil => exact ⟨[], rfl, rfl, fun _ hq => absurd hq List.not_mem_nil⟩
  | @cons a b _ _ hab _ ih =>
    obtain ⟨pairs, rfl, rfl, hpairs⟩ := ih
    refine ⟨(a, b) :: pairs, rfl, rfl, ?_⟩
    rw [List.forall_mem_cons]
    exact ⟨hab, hpairs⟩

theorem exists_left {b : β} (h : List.Forall₂ R l l') (hb : b ∈ l') : ∃ a ∈ l, R a b := by
  induction h with
  | nil => cases hb
  | cons hab _ ih =>
    rcases List.mem_cons.mp hb with rfl | hb
    · exact ⟨_, List.mem_cons_self, hab⟩
    · obtain ⟨a, ha, hab⟩ := ih hb
      exact ⟨a, List.mem_cons_of_mem _ ha, hab⟩

theorem exists_right {a : α} (h : List.Forall₂ R l l') (ha : a ∈ l) : ∃ b ∈ l', R a b :=
  exists_left h.flip ha

theorem place (h : List.Forall₂ R l l') (i : ℕ) : (l[i]? = none ∧ l'[i]? = none) ∨
    ∃ a b, l[i]? = some a ∧ l'[i]? = some b ∧ R a b := by
  induction h generalizing i with
  | nil => exact Or.inl ⟨rfl, rfl⟩
  | @cons a b _ _ hab _ ih =>
    cases i with
    | zero => exact Or.inr ⟨a, b, rfl, rfl, hab⟩
    | succ i => exact ih i

theorem modify {f : α → α} {g : β → β} (h : List.Forall₂ R l l') (hfg : ∀ a b, R a b → R (f a) (g b))
    (i : ℕ) : List.Forall₂ R (l.modify i f) (l'.modify i g) := by
  induction h generalizing i with
  | nil => simp
  | @cons a b _ _ hab htail ih =>
    cases i with
    | zero => exact List.Forall₂.cons (hfg a b hab) htail
    | succ i => exact List.Forall₂.cons hab (ih i)

theorem map_append_iff {f : α → β} {extra : List β} :
    List.Forall₂ R l (l.map f ++ extra) ↔ extra = [] ∧ ∀ a ∈ l, R a (f a) := by
  constructor
  · intro h
    have hlen := h.length_eq
    rw [List.length_append, List.length_map] at hlen
    have hextra : extra = [] := List.eq_nil_of_length_eq_zero (by omega)
    rw [hextra, List.append_nil, List.forall₂_map_right_iff, List.forall₂_same] at h
    exact ⟨hextra, h⟩
  · rintro ⟨rfl, h⟩
    rw [List.append_nil, List.forall₂_map_right_iff, List.forall₂_same]
    exact h

/-- A partner for every element makes a list of partners. -/
theorem exists_beside (h : ∀ b ∈ l', ∃ a, R a b) : ∃ l, List.Forall₂ R l l' := by
  induction l' with
  | nil => exact ⟨[], List.Forall₂.nil⟩
  | cons b l' ih =>
    rw [List.forall_mem_cons] at h
    obtain ⟨⟨a, hab⟩, hrest⟩ := h
    obtain ⟨l, hl⟩ := ih hrest
    exact ⟨a :: l, List.Forall₂.cons hab hl⟩

/-- When no element has two partners, the partners of different elements differ. -/
theorem nodup (h : List.Forall₂ R l l') (hnodup : l'.Nodup)
    (hunique : ∀ a, ∀ b ∈ l', ∀ b' ∈ l', R a b → R a b' → b = b') : l.Nodup := by
  induction h with
  | nil => exact List.nodup_nil
  | @cons a b l l' hab h ih =>
    obtain ⟨hb, hnodup⟩ := List.nodup_cons.mp hnodup
    refine List.nodup_cons.mpr ⟨fun ha => ?_, ih hnodup fun a c hc c' hc' => ?_⟩
    · obtain ⟨b', hb', hab'⟩ := exists_right h ha
      rw [hunique a b List.mem_cons_self b' (List.mem_cons_of_mem _ hb') hab hab'] at hb
      exact hb hb'
    · exact hunique a c (List.mem_cons_of_mem _ hc) c' (List.mem_cons_of_mem _ hc')

end SideBySide
