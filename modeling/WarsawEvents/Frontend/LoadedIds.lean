import WarsawEvents.Foundations.Runs
import WarsawEvents.Frontend.Hearts

/-! # A load of saved ids, and the clicks after it

One `UserProvider` from its mount on: clicks and the outcomes of their requests, sessions that begin
with a load, responses with any ids, logouts, in any interleaving. A load knows a later click by its
generation, so a number that the load has snapshotted must not be given to a click again.
-/

namespace WarsawEvents.Hearts
set_option autoImplicit false

open Runs

variable {ι : Type}

/-! ## One provider and what is under way -/

/-- A request under way, told from others of the same fields by the number of its click. -/
structure Click (ι : Type) extends Request ι where
  number : ℕ
  deriving DecidableEq

structure Tab (ι : Type) where
  page : Provider ι := {}
  inFlight : List (Click ι) := []
  loads : List (Load ι) := []
  logouts : ℕ := 0
  clicks : ℕ := 0

inductive Event (ι : Type) where
  | click (id : ι)
  | succeed (i : ℕ)
  | fail (i : ℕ)
  | session
  | respond (i : ℕ) (ids : List ι)
  | logout
  | loggedOut
  deriving DecidableEq

/-- What an event did. -/
inductive Effect (ι : Type) where
  | sent (c : Click ι)
  | done (c : Click ι)
  | reverted (c : Click ι)
  | ignored (c : Click ι)
  | started (epoch : ℕ)
  | responded (epoch : ℕ)
  | leaving
  | left
  deriving DecidableEq

def Tab.step [DecidableEq ι] (w : Tab ι) : Event ι → Option (Tab ι × Effect ι)
  | .click id =>
    let (r, page) := toggleSave w.page id
    let c : Click ι := { r with number := w.clicks }
    some ({ w with page := page, inFlight := w.inFlight ++ [c], clicks := w.clicks + 1 }, .sent c)
  | .succeed i =>
    match w.inFlight[i]? with
    | none => none
    | some c => some ({ w with inFlight := w.inFlight.eraseIdx i }, .done c)
  | .fail i =>
    match w.inFlight[i]? with
    | none => none
    | some c =>
      some ({ w with page := requestFailed w.page c.toRequest, inFlight := w.inFlight.eraseIdx i },
        if c.taken w.page then .reverted c else .ignored c)
  | .session =>
    let (load, page) := beginLoad w.page
    some ({ w with page := page, loads := w.loads ++ [load] }, .started load.epoch)
  | .respond i ids =>
    match w.loads[i]? with
    | none => none
    | some load =>
      some ({ w with page := publishLoad w.page load ids, loads := w.loads.eraseIdx i },
        .responded load.epoch)
  | .logout => some ({ w with page := beginLogout w.page, logouts := w.logouts + 1 }, .leaving)
  | .loggedOut =>
    match w.logouts with
    | 0 => none
    | n + 1 => some ({ w with page := endLogout w.page, logouts := n }, .left)

/-- A provider at its mount; the epoch is the module's and may have moved before. -/
def mounted (epoch : ℕ) : Tab ι where
  page := { saveEpoch := epoch }

abbrev History (ι : Type) := List (Event ι × Effect ι)

/-! ## Clicks since a load -/

def Effect.click? : Effect ι → Option (Click ι)
  | .sent c => some c
  | _ => none

/-- The last click on the item. -/
def newestClick [DecidableEq ι] (past : History ι) (id : ι) : Option (Click ι) :=
  past.reverse.findSome? fun l => l.2.click?.filter fun c => c.id = id

/-- The label neither reverts the click by its own failure nor supersedes it. -/
def Spares (c : Click ι) (l : Event ι × Effect ι) : Prop :=
  (∀ c', l.2 = .sent c' → c'.id ≠ c.id) ∧ l.2 ≠ .reverted c

/-- The load of the epoch started, then `c` was clicked, and it stands. -/
def StandsSince (past : History ι) (epoch : ℕ) (c : Click ι) : Prop :=
  ∃ before start between click after,
    past = before ++ start :: (between ++ click :: after) ∧
    start.2 = .started epoch ∧ click.2 = .sent c ∧ ∀ l ∈ after, Spares c l

variable {past : History ι} {l : Event ι × Effect ι} {epoch : ℕ} {c : Click ι}

/-- What one more label can do to the standing clicks. -/
theorem StandsSince.snoc_cases (h : StandsSince (past ++ [l]) epoch c) :
    (l.2 = .sent c ∧ ∃ start ∈ past, start.2 = .started epoch) ∨
      (StandsSince past epoch c ∧ Spares c l) := by
  obtain ⟨before, start, between, click, after, hpast, hstart, hclick, hafter⟩ := h
  obtain rfl | ⟨after', last, rfl⟩ := List.eq_nil_or_concat after
  · have hsplit : past ++ [l] = (before ++ start :: between) ++ [click] := by simp [hpast]
    obtain ⟨rfl, hlast⟩ := List.append_inj' hsplit rfl
    obtain rfl := List.cons.inj hlast |>.1
    exact .inl ⟨hclick, start, by simp, hstart⟩
  · have hsplit : past ++ [l] = (before ++ start :: (between ++ click :: after')) ++ [last] := by
      simp [hpast]
    obtain ⟨rfl, hlast⟩ := List.append_inj' hsplit rfl
    obtain rfl := List.cons.inj hlast |>.1
    refine .inr ⟨⟨before, start, between, click, after', rfl, hstart, hclick, ?_⟩, hafter l (by simp)⟩
    intro l' hl'
    exact hafter l' (by simp [hl'])

theorem StandsSince.started (h : StandsSince past epoch c) :
    ∃ start ∈ past, start.2 = .started epoch := by
  obtain ⟨before, start, between, click, after, rfl, hstart, _, _⟩ := h
  exact ⟨start, by simp, hstart⟩

theorem StandsSince.clicked (h : StandsSince past epoch c) : ∃ click ∈ past, click.2 = .sent c := by
  obtain ⟨before, start, between, click, after, rfl, _, hclick, _⟩ := h
  exact ⟨click, by simp, hclick⟩

/-- A click that stands is the newest on its item. -/
theorem StandsSince.newest [DecidableEq ι] (h : StandsSince past epoch c) : newestClick past c.id = some c := by
  obtain ⟨before, start, between, click, after, rfl, _, hclick, hafter⟩ := h
  unfold newestClick
  have hsplit : (before ++ start :: (between ++ click :: after)).reverse =
      after.reverse ++ click :: (between.reverse ++ start :: before.reverse) := by simp
  have hnone : (after.reverse.findSome? fun l => l.2.click?.filter fun c' => c'.id = c.id) = none := by
    rw [List.findSome?_eq_none_iff]
    intro l hl
    have hspares := hafter l (List.mem_reverse.mp hl)
    cases heffect : l.2 with
    | sent c' => simp [Effect.click?, hspares.1 c' heffect]
    | _ => rfl
  have hfound : (click.2.click?.filter fun c' => c'.id = c.id) = some c := by
    rw [hclick]
    exact Option.filter_some_pos (decide_eq_true rfl)
  rw [hsplit, List.findSome?_append, hnone, Option.none_or, List.findSome?_cons, hfound]

/-! ## The condition -/

/-- A load of the current epoch is under way. -/
def Tab.loading (w : Tab ι) : Bool := w.loads.any fun load => load.epoch = w.page.saveEpoch

/-- A load of the current epoch is under way that started before the item was clicked. -/
def Tab.clickedSince (w : Tab ι) (id : ι) : Bool :=
  w.loads.any fun load => load.epoch = w.page.saveEpoch && load.clicked w.page id

/-- While a load of the current epoch is under way: no click is given the generation that the load has
snapshotted for its item, a failure that is acted on is the one of the newest click on its item, and no
logout comes to its end and puts out a heart that was clicked since. -/
def keepsClicks [DecidableEq ι] (past : History ι) (w : Tab ι) : Event ι → Bool
  | .click id => w.loads.all fun load =>
      load.epoch ≠ w.page.saveEpoch ||
        nextGeneration w.page id ≠ (load.generationAtStart id).getD 0
  | .fail i =>
    match w.inFlight[i]? with
    | none => true
    | some c => !w.loading || !c.taken w.page || newestClick past c.id = some c
  | .loggedOut => past.all fun l =>
      l.2.click?.all fun c => !(w.clickedSince c.id && w.page.savedIds c.id)
  | _ => true

/-! ## What one event keeps -/

structure Kept (past : History ι) (w : Tab ι) : Prop where
  epochs : ∀ load ∈ w.loads, load.epoch ≤ w.page.saveEpoch
  distinct : (w.loads.map Load.epoch).Nodup
  started : ∀ l ∈ past, ∀ epoch, l.2 = .started epoch → epoch ≤ w.page.saveEpoch
  standing : ∀ load ∈ w.loads, load.epoch = w.page.saveEpoch → ∀ c, StandsSince past load.epoch c →
    w.page.savedIds c.id = !c.wasSaved ∧ load.clicked w.page c.id = true

variable {w w' : Tab ι} {p p' : Provider ι} {load : Load ι}

theorem clicked_congr {id : ι} (h : p'.saveGeneration id = p.saveGeneration id) :
    load.clicked p' id = load.clicked p id := by
  unfold Load.clicked
  rw [h]

theorem Kept.started_snoc (h : Kept past w) (hl : ∀ epoch, l.2 ≠ .started epoch) :
    ∀ l' ∈ past ++ [l], ∀ epoch, l'.2 = .started epoch → epoch ≤ w.page.saveEpoch := by
  intro l' hl' epoch hstart
  obtain hold | hnew := List.mem_append.mp hl'
  · exact h.started l' hold epoch hstart
  · rw [List.mem_singleton.mp hnew] at hstart
    exact absurd hstart (hl epoch)

/-- An event that is no click and leaves the standing hearts and the loads as they are. -/
theorem Kept.quiet (h : Kept past w) (hclick : ∀ c, l.2 ≠ .sent c)
    (hstart : ∀ epoch, l.2 ≠ .started epoch) (hepoch : w'.page.saveEpoch = w.page.saveEpoch)
    (hloads : w'.loads = w.loads)
    (hpage : ∀ load ∈ w.loads, load.epoch = w.page.saveEpoch →
      ∀ c, StandsSince past load.epoch c → Spares c l →
        w'.page.savedIds c.id = w.page.savedIds c.id ∧
          w'.page.saveGeneration c.id = w.page.saveGeneration c.id) : Kept (past ++ [l]) w' := by
  refine ⟨?_, ?_, ?_, ?_⟩
  · rw [hloads, hepoch]
    exact h.epochs
  · rw [hloads]
    exact h.distinct
  · rw [hepoch]
    exact h.started_snoc hstart
  · intro load hload hcurrent c hstands
    rw [hloads] at hload
    rw [hepoch] at hcurrent
    obtain ⟨hsent, _⟩ | ⟨hstood, hspares⟩ := hstands.snoc_cases
    · exact absurd hsent (hclick c)
    · obtain ⟨hheart, hclicked⟩ := h.standing load hload hcurrent c hstood
      obtain ⟨hsame, hgeneration⟩ := hpage load hload hcurrent c hstood hspares
      rw [hsame, clicked_congr hgeneration]
      exact ⟨hheart, hclicked⟩

/-- The epoch moves: no load of the new epoch has seen a click. -/
theorem Kept.bumped (h : Kept past w) (hepoch : w'.page.saveEpoch = w.page.saveEpoch + 1)
    (hclick : ∀ c, l.2 ≠ .sent c)
    (hstart : ∀ epoch, l.2 = .started epoch → epoch = w.page.saveEpoch + 1)
    (hloads : w'.loads = w.loads ∨
      ∃ load, load.epoch = w.page.saveEpoch + 1 ∧ w'.loads = w.loads ++ [load]) :
    Kept (past ++ [l]) w' := by
  have hold : ∀ load ∈ w'.loads, load ∈ w.loads ∨ load.epoch = w.page.saveEpoch + 1 := by
    intro load hload
    obtain hsame | ⟨new, hnew, hgrown⟩ := hloads
    · exact .inl (by rwa [hsame] at hload)
    · rw [hgrown] at hload
      obtain hmem | hlast := List.mem_append.mp hload
      · exact .inl hmem
      · rw [List.mem_singleton.mp hlast]
        exact .inr hnew
  refine ⟨?_, ?_, ?_, ?_⟩
  · intro load hload
    rw [hepoch]
    obtain hmem | hnew := hold load hload
    · have hle := h.epochs load hmem
      omega
    · omega
  · obtain hsame | ⟨new, hnew, hgrown⟩ := hloads
    · rw [hsame]
      exact h.distinct
    · rw [hgrown, List.map_append, List.nodup_append]
      refine ⟨h.distinct, by simp, ?_⟩
      intro e he e' he'
      obtain ⟨load, hload, rfl⟩ := List.mem_map.mp he
      have hle := h.epochs load hload
      have hlast : e' = new.epoch := List.mem_singleton.mp he'
      omega
  · intro l' hl' epoch hepoch'
    rw [hepoch]
    obtain hmem | hnew := List.mem_append.mp hl'
    · have hle := h.started l' hmem epoch hepoch'
      omega
    · rw [List.mem_singleton.mp hnew] at hepoch'
      have heq := hstart epoch hepoch'
      omega
  · intro load hload hcurrent c hstands
    rw [hepoch] at hcurrent
    obtain ⟨hsent, _⟩ | ⟨hstood, _⟩ := hstands.snoc_cases
    · exact absurd hsent (hclick c)
    · obtain ⟨start, hmem, hstarted⟩ := hstood.started
      have hle := h.started start hmem load.epoch hstarted
      omega

theorem kept_mounted (n : ℕ) : Kept ([] : History ι) (mounted n) := by
  refine ⟨?_, List.nodup_nil, ?_, ?_⟩
  · intro load hload
    cases hload
  · intro l hl
    cases hl
  · intro load hload
    cases hload

/-! ## What each event does -/

variable [DecidableEq ι]

theorem Kept.click (h : Kept past w) (id : ι)
    (hclean : keepsClicks past w (.click id) = true) {c₀ : Click ι}
    (hc₀ : c₀.toRequest = (toggleSave w.page id).1) (hl : l.2 = .sent c₀)
    (hpage : w'.page = (toggleSave w.page id).2) (hloads : w'.loads = w.loads) :
    Kept (past ++ [l]) w' := by
  have hepoch : w'.page.saveEpoch = w.page.saveEpoch := by rw [hpage, toggleSave_epoch]
  have hid : c₀.id = id := by rw [hc₀, toggleSave_id]
  refine ⟨?_, ?_, ?_, ?_⟩
  · rw [hloads, hepoch]
    exact h.epochs
  · rw [hloads]
    exact h.distinct
  · rw [hepoch]
    exact h.started_snoc (by simp [hl])
  · intro load hload hcurrent c hstands
    rw [hloads] at hload
    rw [hepoch] at hcurrent
    rw [hpage]
    obtain ⟨hsent, _⟩ | ⟨hstood, hspares⟩ := hstands.snoc_cases
    · -- the click itself: its generation is not the load's
      obtain rfl : c₀ = c := by simpa [hl] using hsent
      have hfresh := List.all_eq_true.mp hclean load hload
      simp only [hcurrent, ne_eq, not_true_eq_false, decide_false, Bool.false_or,
        decide_eq_true_eq] at hfresh
      have hwas : c₀.wasSaved = w.page.savedIds id := by rw [hc₀, toggleSave_wasSaved]
      rw [hid, toggleSave_savedIds, hwas]
      refine ⟨rfl, ?_⟩
      unfold Load.clicked
      rw [toggleSave_generation]
      simpa using hfresh
    · have hother : c.id ≠ id := by
        rw [← hid]
        exact (hspares.1 c₀ hl).symm
      obtain ⟨hheart, hclicked⟩ := h.standing load hload hcurrent c hstood
      rw [toggleSave_savedIds_other hother, clicked_congr (toggleSave_generation_other hother)]
      exact ⟨hheart, hclicked⟩

theorem Kept.fail (h : Kept past w) {i : ℕ} {c₀ : Click ι} (hi : w.inFlight[i]? = some c₀)
    (hclean : keepsClicks past w (.fail i) = true)
    (hl : l.2 = if c₀.taken w.page then .reverted c₀ else .ignored c₀)
    (hpage : w'.page = requestFailed w.page c₀.toRequest) (hloads : w'.loads = w.loads) :
    Kept (past ++ [l]) w' := by
  refine h.quiet ?_ ?_ (by rw [hpage, requestFailed_epoch]) hloads ?_
  · intro c
    rw [hl]
    split
    · simp
    · simp
  · intro epoch
    rw [hl]
    split
    · simp
    · simp
  · intro load hload hcurrent c hstood hspares
    have hloading : w.loading = true := List.any_eq_true.mpr ⟨load, hload, decide_eq_true hcurrent⟩
    rw [hpage]
    cases htaken : c₀.taken w.page with
    | false =>
      rw [requestFailed_of_not_taken htaken]
      exact ⟨rfl, rfl⟩
    | true =>
      have hother : c.id ≠ c₀.id := by
        intro hid
        -- the newest click on the item is both, so the label reverts the standing one
        have hnewest : newestClick past c₀.id = some c₀ := by
          simpa [keepsClicks, hi, hloading, htaken] using hclean
        rw [← hid, hstood.newest] at hnewest
        obtain rfl := Option.some.inj hnewest
        rw [htaken, if_pos rfl] at hl
        exact hspares.2 hl
      exact ⟨requestFailed_savedIds_other hother, requestFailed_generation_other hother⟩

/-- Of the loads under way, only the one that answers may be of the current epoch. -/
theorem Kept.respond (h : Kept past w) {i : ℕ} (hi : w.loads[i]? = some load) (ids : List ι)
    (hl : l.2 = .responded load.epoch) (hpage : w'.page = publishLoad w.page load ids)
    (hloads : w'.loads = w.loads.eraseIdx i) : Kept (past ++ [l]) w' := by
  have hepoch : w'.page.saveEpoch = w.page.saveEpoch := by
    rw [hpage]
    unfold publishLoad
    split
    · rfl
    · rfl
  have hsub : ∀ load' ∈ w'.loads, load' ∈ w.loads := by
    intro load' hload'
    rw [hloads] at hload'
    exact List.mem_of_mem_eraseIdx hload'
  refine ⟨?_, ?_, ?_, ?_⟩
  · intro load' hload'
    rw [hepoch]
    exact h.epochs load' (hsub load' hload')
  · rw [hloads]
    exact h.distinct.sublist ((List.eraseIdx_sublist _ _).map _)
  · rw [hepoch]
    exact h.started_snoc (by simp [hl])
  · intro load' hload' hcurrent c hstands
    rw [hepoch] at hcurrent
    obtain ⟨hsent, _⟩ | ⟨hstood, _⟩ := hstands.snoc_cases
    · rw [hl] at hsent
      cases hsent
    · have hstale : w.page.saveEpoch ≠ load.epoch := by
        intro hsame
        rw [hloads, List.mem_eraseIdx_iff_getElem?] at hload'
        obtain ⟨j, hji, hj⟩ := hload'
        have hepochs : (w.loads.map Load.epoch)[j]? = (w.loads.map Load.epoch)[i]? := by
          rw [List.getElem?_map, List.getElem?_map, hj, hi]
          exact congrArg some (hcurrent.trans hsame)
        have hlt : j < (w.loads.map Load.epoch).length := by
          rw [List.length_map]
          exact (List.getElem?_eq_some_iff.mp hj).1
        exact hji ((List.getElem?_inj hlt h.distinct).mp hepochs)
      have hkept : w'.page = w.page := by
        rw [hpage]
        exact if_neg hstale
      rw [hkept]
      exact h.standing load' (hsub load' hload') hcurrent c hstood

theorem Kept.step (h : Kept past w) (hclean : keepsClicks past w l.1 = true)
    (hstep : w.step l.1 = some (w', l.2)) : Kept (past ++ [l]) w' := by
  obtain ⟨event, effect⟩ := l
  cases event with
  | click id =>
    cases hstep
    exact h.click id hclean rfl rfl rfl rfl
  | succeed i =>
    simp only [Tab.step] at hstep
    split at hstep
    · cases hstep
    · cases hstep
      exact h.quiet (by simp) (by simp) rfl rfl fun _ _ _ _ _ _ => ⟨rfl, rfl⟩
  | fail i =>
    simp only [Tab.step] at hstep
    split at hstep
    · cases hstep
    · rename_i c hi
      cases hstep
      exact h.fail hi hclean rfl rfl rfl
  | session =>
    cases hstep
    exact h.bumped rfl (by simp) (by simp) (.inr ⟨_, rfl, rfl⟩)
  | respond i ids =>
    simp only [Tab.step] at hstep
    split at hstep
    · cases hstep
    · rename_i load hi
      cases hstep
      exact h.respond hi ids rfl rfl rfl
  | logout =>
    cases hstep
    exact h.bumped rfl (by simp) (by simp) (.inl rfl)
  | loggedOut =>
    simp only [Tab.step] at hstep
    split at hstep
    · cases hstep
    · cases hstep
      refine h.quiet (by simp) (by simp) rfl rfl ?_
      intro load hload hcurrent c hstood _
      refine ⟨?_, rfl⟩
      -- a heart that was clicked since the load started is out already
      have hclicked := (h.standing load hload hcurrent c hstood).2
      have hsince : w.clickedSince c.id = true :=
        List.any_eq_true.mpr ⟨load, hload, by simp [hcurrent, hclicked]⟩
      obtain ⟨label, hlabel, hsent⟩ := hstood.clicked
      have hout := List.all_eq_true.mp hclean label hlabel
      simp only [hsent, Effect.click?, Option.all_some, hsince, Bool.true_and,
        Bool.not_eq_true'] at hout
      exact hout.symm

/-- Publishing keeps the hearts of the items that were clicked since the load started. -/
theorem publishLoad_clicked {ids : List ι} {id : ι} (h : load.clicked p id = true) :
    (publishLoad p load ids).savedIds id = p.savedIds id := by
  unfold publishLoad
  split
  · show (if load.clicked p id = true then p.savedIds id else ids.contains id) = p.savedIds id
    rw [if_pos h]
  · rfl

/-- A load's response leaves every heart that was clicked since, and still stands, as the click set
it. -/
theorem load_keeps_later_clicks {n i : ℕ} {log : History ι} {ids : List ι} {effect : Effect ι}
    (hrun : Run (guarded (fun past w event => keepsClicks past w event = true) Tab.step) []
      (mounted n) log w)
    (hload : w.loads[i]? = some load) (hepoch : load.epoch = w.page.saveEpoch)
    (hstands : StandsSince log load.epoch c)
    (hstep : w.step (.respond i ids) = some (w', effect)) :
    w'.page.savedIds c.id = !c.wasSaved := by
  have hkept : Kept log w := by
    refine hrun.invariant_of_init Kept ?_ (kept_mounted n)
    intro past w l w' hI hl
    exact hI.step hl.1 hl.2
  obtain ⟨hheart, hclicked⟩ := hkept.standing load (List.mem_of_getElem? hload) hepoch c hstands
  simp only [Tab.step, hload, Option.some.injEq, Prod.mk.injEq] at hstep
  rw [← hstep.1]
  exact (publishLoad_clicked hclicked).trans hheart

/-! ## A number that is given again -/

def clickedWhileLoading : List (Event ℕ) := [.session, .click 42]

/-- A session in which the item was saved, and a second one: its load has snapshotted generation 1 of
the item, and a refused click drops that number. -/
def clickedAgain : List (Event ℕ) :=
  [.session, .respond 0 [], .click 42, .succeed 0, .logout, .loggedOut,
    .session, .click 42, .fail 0, .click 42]

def afterClick : History ℕ × Tab ℕ :=
  (replay (fun past w event => keepsClicks past w event = true) Tab.step [] (mounted 0)
    clickedWhileLoading).getD ([], mounted 0)

def afterClickAgain : History ℕ × Tab ℕ :=
  (replay Runs.anyStep Tab.step [] (mounted 0) clickedAgain).getD ([], mounted 0)

def firstClick : Click ℕ := { id := 42, wasSaved := false, epoch := 1, generation := 1, number := 0 }

def reusedClick : Click ℕ := { id := 42, wasSaved := false, epoch := 3, generation := 1, number := 2 }

/-- An empty answer does not undo the click. -/
theorem load_keeps_later_clicks_saved : ∃ w' effect,
    afterClick.2.step (.respond 0 []) = some (w', effect) ∧ w'.page.savedIds 42 = true := by
  have hrun : Run (guarded (fun past w event => keepsClicks past w event = true) Tab.step) []
      (mounted 0) afterClick.1 afterClick.2 :=
    replay_getD_run _ _ _ _ clickedWhileLoading _ (by decide)
  have hstands : StandsSince afterClick.1 1 firstClick :=
    ⟨[], (.session, .started 1), [], (.click 42, .sent firstClick), [], by decide, rfl, rfl, by simp⟩
  exact ⟨_, _, rfl, load_keeps_later_clicks hrun (i := 0) rfl rfl hstands rfl⟩

/-- The same answer undoes a click that was given the number the load knows. -/
theorem load_overrides_click : ¬ ∀ (n i : ℕ) (log : History ℕ) (w w' : Tab ℕ) (load : Load ℕ)
    (ids : List ℕ) (c : Click ℕ) (effect : Effect ℕ),
    Run (guarded Runs.anyStep Tab.step) [] (mounted n) log w → w.loads[i]? = some load →
      load.epoch = w.page.saveEpoch → StandsSince log load.epoch c →
        w.step (.respond i ids) = some (w', effect) → w'.page.savedIds c.id = !c.wasSaved := by
  intro h
  have hrun : Run (guarded Runs.anyStep Tab.step) [] (mounted 0) afterClickAgain.1 afterClickAgain.2 :=
    replay_getD_run _ _ _ _ clickedAgain _ (by decide)
  have hstands : StandsSince afterClickAgain.1 3 reusedClick := by
    refine ⟨afterClickAgain.1.take 6, (.session, .started 3), (afterClickAgain.1.drop 7).take 2,
      (.click 42, .sent reusedClick), [], by decide, rfl, rfl, by simp⟩
  have hheart := h 0 0 afterClickAgain.1 afterClickAgain.2 _ _ [] reusedClick _ hrun rfl rfl hstands rfl
  exact absurd hheart (by decide)

end WarsawEvents.Hearts
