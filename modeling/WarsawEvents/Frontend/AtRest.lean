import WarsawEvents.Foundations.Runs
import WarsawEvents.Frontend.Hearts

/-! # Hearts and the server, once every request is over

One signed-in user clicks hearts. The server takes the requests in the order in which they were sent;
their outcomes reach the page in any order. A failure that the page hears puts the heart back to where
it was before its own click, which is the server's bit only if no other request has changed that since.
-/

namespace WarsawEvents.Hearts
set_option autoImplicit false

open Runs

variable {ι : Type} [DecidableEq ι]

/-! ## The page, the server, and what is between them -/

/-- `queue` is not yet at the server; of `outcomes`, the page has not yet heard. -/
structure World (ι : Type) where
  page : Provider ι
  server : ι → Bool
  queue : List (Request ι) := []
  outcomes : List (Request ι × Bool) := []

inductive Move (ι : Type) where
  | click (id : ι)
  | serve (ok : Bool)
  | deliver (i : ℕ)
  deriving DecidableEq

/-- `POST` or `DELETE /me/saved`, or nothing if it fails. -/
def applied (server : ι → Bool) (r : Request ι) (ok : Bool) : ι → Bool :=
  if ok then Function.update server r.id (!r.wasSaved) else server

def heard (p : Provider ι) (outcome : Request ι × Bool) : Provider ι :=
  if outcome.2 then p else requestFailed p outcome.1

def step (w : World ι) : Move ι → Option (World ι × Unit)
  | .click id =>
    let (r, page) := toggleSave w.page id
    some ({ w with page := page, queue := w.queue ++ [r] }, ())
  | .serve ok =>
    match w.queue with
    | [] => none
    | r :: rest =>
      some ({ w with server := applied w.server r ok, queue := rest
                     outcomes := w.outcomes ++ [(r, ok)] }, ())
  | .deliver i =>
    match w.outcomes[i]? with
    | none => none
    | some outcome =>
      some ({ w with page := heard w.page outcome, outcomes := w.outcomes.eraseIdx i }, ())

/-- No request of the item is still on its way to the server. -/
def World.served (w : World ι) (id : ι) : Bool := w.queue.all fun r => r.id ≠ id

/-- A failure that is heard finds the server with every request of the item, and with the item as it was
before the click that failed. -/
def revertsToServer (w : World ι) : Move ι → Bool
  | .click _ => true
  | .serve _ => true
  | .deliver i =>
    match w.outcomes[i]? with
    | none => true
    | some (r, ok) =>
      ok || !r.taken w.page || (w.served r.id && w.server r.id = r.wasSaved)

/-! ## What holds of one item -/

/-- Nothing is left to do for the item, or its newest request will settle it. -/
inductive Settling (w : World ι) (id : ι) : Prop
  | settled (hserved : w.served id = true) (hsame : w.page.savedIds id = w.server id)
  | asked {before after : List (Request ι)} {r : Request ι} (hqueue : w.queue = before ++ r :: after)
      (hlast : ∀ q ∈ after, q.id ≠ id) (hid : r.id = id) (hheart : w.page.savedIds id = !r.wasSaved)
      (htaken : r.taken w.page = true)
  | refused {r : Request ι} (hserved : w.served id = true) (houtcome : (r, false) ∈ w.outcomes)
      (hid : r.id = id) (htaken : r.taken w.page = true)

variable {w w' : World ι} {id : ι} {r : Request ι}

theorem served_iff : w.served id = true ↔ ∀ q ∈ w.queue, q.id ≠ id := by
  unfold World.served
  rw [List.all_eq_true]
  simp only [decide_eq_true_eq]

omit [DecidableEq ι] in
/-- The request of another item goes to the end of the queue. -/
theorem unasked_append {queue : List (Request ι)} (h : ∀ q ∈ queue, q.id ≠ id) (hr : r.id ≠ id) :
    ∀ q ∈ queue ++ [r], q.id ≠ id := by
  intro q hq
  obtain hold | hnew := List.mem_append.mp hq
  · exact h q hold
  · rw [List.mem_singleton.mp hnew]
    exact hr

theorem applied_other {server : ι → Bool} (hother : r.id ≠ id) (ok : Bool) :
    applied server r ok id = server id := by
  unfold applied
  split
  · exact Function.update_of_ne (Ne.symm hother) _ _
  · rfl

/-- A click, on the item or on another one. -/
theorem Settling.click (h : Settling w id) (clicked : ι) :
    Settling { w with page := (toggleSave w.page clicked).2
                      queue := w.queue ++ [(toggleSave w.page clicked).1] } id := by
  by_cases hid : clicked = id
  · subst hid
    exact .asked rfl (by simp) toggleSave_id toggleSave_savedIds toggleSave_taken
  · have hother : id ≠ clicked := Ne.symm hid
    cases h with
    | settled hserved hsame =>
      refine .settled ?_ ?_
      · rw [served_iff] at hserved ⊢
        exact unasked_append hserved hid
      · rw [← hsame]
        exact toggleSave_savedIds_other hother
    | asked hqueue hlast hr hheart htaken =>
      refine .asked ((congrArg (· ++ _) hqueue).trans (List.append_assoc _ _ _)) ?_ hr ?_ ?_
      · exact unasked_append hlast hid
      · rw [← hheart]
        exact toggleSave_savedIds_other hother
      · rw [taken_toggleSave_other (by rw [hr]; exact hother)]
        exact htaken
    | refused hserved houtcome hr htaken =>
      refine .refused ?_ houtcome hr ?_
      · rw [served_iff] at hserved ⊢
        exact unasked_append hserved hid
      · rw [taken_toggleSave_other (by rw [hr]; exact hother)]
        exact htaken

/-- The server takes the oldest request. -/
theorem Settling.serve (h : Settling w id) {rest : List (Request ι)} (hq : w.queue = r :: rest)
    (ok : Bool) :
    Settling { w with server := applied w.server r ok, queue := rest
                      outcomes := w.outcomes ++ [(r, ok)] } id := by
  cases h with
  | settled hserved hsame =>
    rw [served_iff, hq] at hserved
    refine .settled (served_iff.mpr fun q hmem => hserved q (List.mem_cons_of_mem r hmem)) ?_
    exact hsame.trans (applied_other (hserved r List.mem_cons_self) ok).symm
  | asked hqueue hlast hr hheart htaken =>
    rename_i before after newest
    cases before with
    | nil =>
      -- the newest request of the item is the one that is served
      rw [hq, List.nil_append, List.cons.injEq] at hqueue
      obtain ⟨rfl, rfl⟩ := hqueue
      cases ok with
      | true =>
        refine .settled (served_iff.mpr hlast) ?_
        show w.page.savedIds id = Function.update w.server r.id (!r.wasSaved) id
        rw [← hr, Function.update_self, hr]
        exact hheart
      | false =>
        exact .refused (served_iff.mpr hlast) (List.mem_append_right _ (List.mem_singleton.mpr rfl)) hr
          htaken
    | cons oldest before =>
      rw [hq, List.cons_append, List.cons.injEq] at hqueue
      exact .asked hqueue.2 hlast hr hheart htaken
  | refused hserved houtcome hr htaken =>
    rw [served_iff, hq] at hserved
    exact .refused (served_iff.mpr fun q hmem => hserved q (List.mem_cons_of_mem r hmem))
      (List.mem_append_left _ houtcome) hr htaken

theorem mem_eraseIdx_of_ne {α : Type} {xs : List α} {i : ℕ} {x y : α} (hi : xs[i]? = some x)
    (hy : y ∈ xs) (hne : y ≠ x) : y ∈ xs.eraseIdx i := by
  obtain ⟨j, hj⟩ := List.mem_iff_getElem?.mp hy
  rw [List.mem_eraseIdx_iff_getElem?]
  refine ⟨j, ?_, hj⟩
  intro hij
  rw [hij, hi] at hj
  exact hne (Option.some.inj hj).symm

/-- The page hears of an outcome that leaves it as it is. -/
theorem Settling.unheard (h : Settling w id) {i : ℕ} {outcome : Request ι × Bool}
    (hi : w.outcomes[i]? = some outcome)
    (hquiet : outcome.2 = true ∨ outcome.1.taken w.page = false) :
    Settling { w with outcomes := w.outcomes.eraseIdx i } id := by
  cases h with
  | settled hserved hsame => exact .settled hserved hsame
  | asked hqueue hlast hr hheart htaken => exact .asked hqueue hlast hr hheart htaken
  | refused hserved houtcome hr htaken =>
    refine .refused hserved (mem_eraseIdx_of_ne hi houtcome ?_) hr htaken
    rintro rfl
    obtain hok | hnot := hquiet
    · cases hok
    · rw [htaken] at hnot
      cases hnot

/-- The page hears of a failure of another item. -/
theorem Settling.heardOther (h : Settling w id) {i : ℕ} (hi : w.outcomes[i]? = some (r, false))
    (hother : id ≠ r.id) :
    Settling { w with page := requestFailed w.page r, outcomes := w.outcomes.eraseIdx i } id := by
  have hheart' : (requestFailed w.page r).savedIds id = w.page.savedIds id :=
    requestFailed_savedIds_other hother
  cases h with
  | settled hserved hsame => exact .settled hserved (hheart'.trans hsame)
  | asked hqueue hlast hr hheart htaken =>
    refine .asked hqueue hlast hr (hheart'.trans hheart) ?_
    exact (taken_requestFailed_other (by rw [hr]; exact hother)).trans htaken
  | refused hserved houtcome hr htaken =>
    refine .refused hserved (mem_eraseIdx_of_ne hi houtcome ?_) hr ?_
    · rintro ⟨⟩
      exact hother hr.symm
    · exact (taken_requestFailed_other (by rw [hr]; exact hother)).trans htaken

theorem Settling.deliver (h : Settling w id) {i : ℕ} {outcome : Request ι × Bool}
    (hi : w.outcomes[i]? = some outcome) (hclean : revertsToServer w (.deliver i) = true) :
    Settling { w with page := heard w.page outcome, outcomes := w.outcomes.eraseIdx i } id := by
  obtain ⟨r, ok⟩ := outcome
  cases ok with
  | true => exact h.unheard hi (.inl rfl)
  | false =>
    show Settling { w with page := requestFailed w.page r, outcomes := w.outcomes.eraseIdx i } id
    cases htaken : r.taken w.page with
    | false =>
      rw [requestFailed_of_not_taken htaken]
      exact h.unheard hi (.inr htaken)
    | true =>
      by_cases hid : id = r.id
      · subst hid
        simp only [revertsToServer, hi, htaken, Bool.false_or, Bool.not_true, Bool.and_eq_true,
          decide_eq_true_eq] at hclean
        exact .settled hclean.1 ((requestFailed_savedIds htaken).trans hclean.2.symm)
      · exact h.heardOther hi hid

/-! ## Every run -/

theorem Settling.step (h : Settling w id) {move : Move ι} {out : Unit}
    (hclean : revertsToServer w move = true) (hstep : Hearts.step w move = some (w', out)) :
    Settling w' id := by
  cases move with
  | click clicked =>
    cases hstep
    exact h.click clicked
  | serve ok =>
    simp only [Hearts.step] at hstep
    split at hstep
    · cases hstep
    · rename_i r rest hq
      cases hstep
      exact h.serve hq ok
  | deliver i =>
    simp only [Hearts.step] at hstep
    split at hstep
    · cases hstep
    · rename_i outcome hi
      cases hstep
      exact h.deliver hi hclean

/-- Where the hearts show what the server has, and no request is under way, and every failure that is
heard reverts to what the server has, the hearts show it again whenever no request is under way. -/
theorem hearts_agree_at_rest {w₀ w : World ι} {log : List (Move ι × Unit)}
    (hstart : w₀.queue = []) (hsame : ∀ id, w₀.page.savedIds id = w₀.server id)
    (hrun : Run (guarded (fun _ w move => revertsToServer w move = true) Hearts.step) [] w₀ log w)
    (hqueue : w.queue = []) (houtcomes : w.outcomes = []) (id : ι) :
    w.page.savedIds id = w.server id := by
  have hsettling : Settling w id := by
    refine hrun.invariant_of_init (fun _ w => Settling w id) ?_ ?_
    · intro past w l w' hw hstep
      exact hw.step hstep.1 hstep.2
    · refine .settled (served_iff.mpr ?_) (hsame id)
      rw [hstart]
      simp
  cases hsettling with
  | settled _ hsame => exact hsame
  | asked hlist _ _ _ _ =>
    rw [hqueue] at hlist
    exact absurd hlist (by simp)
  | refused _ hmem _ _ =>
    rw [houtcomes] at hmem
    cases hmem

/-! ## A failure that reverts to something else -/

/-- The heart has been put back wrongly, and nobody is going to hear of it. -/
structure Misled (w : World ι) (id : ι) : Prop where
  served : w.served id = true
  forgotten : w.page.saveGeneration id = none
  differs : w.page.savedIds id ≠ w.server id

theorem misled_of_revert {i : ℕ} (hi : w.outcomes[i]? = some (r, false))
    (htaken : r.taken w.page = true) (hserved : w.served r.id = true)
    (hserver : w.server r.id ≠ r.wasSaved) (hstep : Hearts.step w (.deliver i) = some (w', ())) :
    Misled w' r.id := by
  simp only [Hearts.step, hi] at hstep
  cases hstep
  refine ⟨hserved, requestFailed_generation htaken, ?_⟩
  show (requestFailed w.page r).savedIds r.id ≠ w.server r.id
  rw [requestFailed_savedIds htaken]
  exact Ne.symm hserver

/-- It stays wrong until the item is clicked again. -/
theorem Misled.step (h : Misled w id) {move : Move ι} (hclick : move ≠ .click id)
    (hstep : Hearts.step w move = some (w', ())) : Misled w' id := by
  have hserved := served_iff.mp h.served
  cases move with
  | click clicked =>
    have hother : id ≠ clicked := by
      rintro rfl
      exact hclick rfl
    cases hstep
    refine ⟨served_iff.mpr ?_, ?_, ?_⟩
    · exact unasked_append hserved (Ne.symm hother)
    · exact (toggleSave_generation_other hother).trans h.forgotten
    · show (toggleSave w.page clicked).2.savedIds id ≠ w.server id
      rw [toggleSave_savedIds_other hother]
      exact h.differs
  | serve ok =>
    simp only [Hearts.step] at hstep
    split at hstep
    · cases hstep
    · rename_i r rest hq
      cases hstep
      rw [hq] at hserved
      refine ⟨served_iff.mpr fun q hmem => hserved q (List.mem_cons_of_mem r hmem), h.forgotten, ?_⟩
      show w.page.savedIds id ≠ applied w.server r ok id
      rw [applied_other (hserved r List.mem_cons_self)]
      exact h.differs
  | deliver i =>
    simp only [Hearts.step] at hstep
    split at hstep
    · cases hstep
    · rename_i outcome hi
      cases hstep
      obtain ⟨r, ok⟩ := outcome
      have hpage : (heard w.page (r, ok)).savedIds id = w.page.savedIds id ∧
          (heard w.page (r, ok)).saveGeneration id = w.page.saveGeneration id := by
        cases ok with
        | true => exact ⟨rfl, rfl⟩
        | false =>
          by_cases hid : id = r.id
          · have hquiet : r.taken w.page = false := by
              unfold Request.taken
              rw [← hid, h.forgotten]
              simp
            have hkept : heard w.page (r, false) = w.page := requestFailed_of_not_taken hquiet
            rw [hkept]
            exact ⟨rfl, rfl⟩
          · exact ⟨requestFailed_savedIds_other hid, requestFailed_generation_other hid⟩
      refine ⟨h.served, hpage.2.trans h.forgotten, ?_⟩
      show (heard w.page (r, ok)).savedIds id ≠ w.server id
      rw [hpage.1]
      exact h.differs

/-! ## Two clicks that both fail -/

/-- Nothing saved, nothing clicked. -/
def nothingSaved : World ℕ where
  page := {}
  server _ := false

def savedOnce : List (Move ℕ) := [.click 42, .serve true, .deliver 0]

def bothRefused : List (Move ℕ) :=
  [.click 42, .click 42, .serve false, .serve false, .deliver 0, .deliver 0]

def afterSaved : List (Move ℕ × Unit) × World ℕ :=
  (replay (fun _ w move => revertsToServer w move = true) step [] nothingSaved savedOnce).getD
    ([], nothingSaved)

def afterRefusals : List (Move ℕ × Unit) × World ℕ :=
  (replay Runs.anyStep step [] nothingSaved bothRefused).getD ([], nothingSaved)

theorem hearts_agree_at_rest_saved :
    afterSaved.2.page.savedIds 42 = true ∧
      ∀ id, afterSaved.2.page.savedIds id = afterSaved.2.server id := by
  have hstart : nothingSaved.queue = [] := rfl
  have hsame : ∀ id, nothingSaved.page.savedIds id = nothingSaved.server id := fun _ => rfl
  have hrun : Run (guarded (fun _ w move => revertsToServer w move = true) step) [] nothingSaved
      afterSaved.1 afterSaved.2 := replay_getD_run _ _ _ _ savedOnce _ (by decide)
  exact ⟨by decide, hearts_agree_at_rest hstart hsame hrun (by decide) (by decide)⟩

/-- The second failure puts the heart back to where only the first click had put it. -/
theorem heart_disagrees_at_rest : ¬ ∀ (w₀ w : World ℕ) (log : List (Move ℕ × Unit)),
    w₀.queue = [] → w₀.outcomes = [] → (∀ id, w₀.page.savedIds id = w₀.server id) →
      Run (guarded Runs.anyStep step) [] w₀ log w → w.queue = [] → w.outcomes = [] →
        ∀ id, w.page.savedIds id = w.server id := by
  intro h
  have hrun : Run (guarded Runs.anyStep step) [] nothingSaved afterRefusals.1 afterRefusals.2 :=
    replay_getD_run _ _ _ _ bothRefused _ (by decide)
  have hsame := h nothingSaved afterRefusals.2 afterRefusals.1 rfl rfl (fun _ => rfl) hrun (by decide)
    (by decide) 42
  exact absurd hsame (by decide)

end WarsawEvents.Hearts
