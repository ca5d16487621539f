import WarsawEvents.Ingestion.Fetch

/-! # The pages a fetch asks for

The loop of the Ticketmaster adapter is bounded by the events it can use, the interface by the number of
the page. The requests of the loop are 0, 1, 2 and so on; they stay below the page that the interface
refuses exactly where the loop does not get there, which takes ten full pages with too little to use.
-/

namespace WarsawEvents.Ingestion
open Json (Text Value ascii)
set_option autoImplicit false

namespace Ticketmaster

variable {δ : Type}

def pageSize : ℕ := 100

/-- The interface refuses `page * size` from here on. -/
def window : ℕ := 1000

variable (py : Platform δ) (server : ℕ → ℕ → Attempt)

/-- One turn of the loop: what the page yields, and whether it is the last; none for an empty page. -/
def readPage (page : ℕ) : Py (Option (List (Fetched δ) × Bool)) := do
  let payload ← getPage server page 0 maxRetries
  let events ← getD (← getD payload "_embedded" (.obj [])) "events" (.arr [])
  if truthy events then
    let found ← collect (toRawItem py) (← elements events)
    pure (some (found, ← isLast page payload))
  else pure none

/-- The loop of `fetch`, with the pages it asks for. -/
def logged : ℕ → ℕ → List (Fetched δ) → List ℕ × Option (Py (List (Fetched δ)))
  | fuel, page, items =>
    if maxEvents ≤ items.length then ([], some (.ok items))
    else
      match fuel with
      | 0 => ([], none)
      | fuel + 1 =>
        match readPage py server page with
        | .error e => ([page], some (.error e))
        | .ok none => ([page], some (.ok items))
        | .ok (some (found, true)) => ([page], some (.ok (items ++ found)))
        | .ok (some (found, false)) =>
          let rest := logged fuel (page + 1) (items ++ found)
          (page :: rest.1, rest.2)

/-- The pages `fetch` asks for. -/
def requests (fuel : ℕ) : List ℕ := (logged py server fuel 0 []).1

/-- The log changes nothing. -/
theorem logged_result (fuel page : ℕ) (items : List (Fetched δ)) :
    (logged py server fuel page items).2 = readPages py server fuel page items := by
  induction fuel generalizing page items with
  | zero =>
    unfold logged readPages
    split <;> rfl
  | succ fuel ih =>
    have hread : readPages py server (fuel + 1) page items =
        if maxEvents ≤ items.length then some (.ok items)
        else
          match readPage py server page with
          | .error e => some (.error e)
          | .ok none => some (.ok items)
          | .ok (some (found, true)) => some (.ok (items ++ found))
          | .ok (some (found, false)) => readPages py server fuel (page + 1) (items ++ found) := by
      rw [readPages]
      rfl
    rw [hread, logged]
    split
    next => rfl
    next =>
      cases readPage py server page with
      | error e => rfl
      | ok read =>
        cases read with
        | none => rfl
        | some read =>
          obtain ⟨found, last⟩ := read
          cases last with
          | true => rfl
          | false => exact ih (page + 1) (items ++ found)

/-! ## The window -/

/-- A search with these events on its pages and this many pages, answered inside the window. -/
structure Answers (events : ℕ → List PyValue) (total : ℕ) : Prop where
  inside : ∀ p, p * pageSize < window → ∃ payload, getPage server p 0 maxRetries = .ok payload ∧
    isObject payload = true ∧ isObject (fieldD payload "_embedded" (.obj [])) = true ∧
    fieldD (fieldD payload "_embedded" (.obj [])) "events" (.arr []) = .arr (events p) ∧
    isLast p payload = .ok (total ≤ p + 1)

/-- The events of the first pages. -/
def firstPages (events : ℕ → List PyValue) (n : ℕ) : List PyValue := (List.range n).flatMap events

/-- The fetch asks for pages 0, 1, 2 and so on inside the window, and returns the first usable events
of the pages it has read. -/
def InWindow (events : ℕ → List PyValue) (fuel : ℕ) : Prop :=
  ∃ n, requests py server fuel = List.range n ∧ (∀ p < n, p * pageSize < window) ∧
    fetch py true server fuel =
      some (.ok ((survivors (toRawItem py) (firstPages events n)).take maxEvents))

/-- The loop gets to a page: it is one of the search, and those before it are not empty and have too
little to use. -/
structure Reaches (events : ℕ → List PyValue) (total p : ℕ) : Prop where
  exists_page : p = 0 ∨ p < total
  nonempty : ∀ q < p, events q ≠ []
  short : (survivors (toRawItem py) (firstPages events p)).length < maxEvents

variable {py server} {events : ℕ → List PyValue} {total p fuel : ℕ}

theorem firstPages_succ (events : ℕ → List PyValue) (n : ℕ) :
    firstPages events (n + 1) = firstPages events n ++ events n := by
  rw [firstPages, List.range_succ, List.flatMap_append, List.flatMap_singleton, firstPages]

theorem firstPages_le {n m : ℕ} (h : n ≤ m) :
    (survivors (toRawItem py) (firstPages events n)).length
      ≤ (survivors (toRawItem py) (firstPages events m)).length := by
  induction m with
  | zero =>
    obtain rfl : n = 0 := by omega
    exact Nat.le_refl _
  | succ m ih =>
    rcases Nat.lt_or_ge n (m + 1) with hlt | hge
    · have hm := ih (by omega)
      rw [firstPages_succ, survivors_append, List.length_append]
      omega
    · obtain rfl : n = m + 1 := by omega
      exact Nat.le_refl _

theorem Reaches.before (h : Reaches py events total p) {q : ℕ} (hq : q ≤ p) :
    Reaches py events total q where
  exists_page := by
    rcases h.exists_page with hp | hp <;> omega
  nonempty r hr := h.nonempty r (by omega)
  short := Nat.lt_of_le_of_lt (firstPages_le hq) h.short

/-- What a page inside the window comes to. -/
theorem readPage_eq (hserver : Answers server events total) (hp : p * pageSize < window) :
    readPage py server p =
      if events p = [] then .ok none
      else (collect (toRawItem py) (events p)).map fun found =>
        some (found, decide (total ≤ p + 1)) := by
  obtain ⟨payload, hget, hobj, hembedded, hevents, hlast⟩ := hserver.inside p hp
  unfold readPage
  simp only [hget, ok_bind, getD_eq hobj, getD_eq hembedded, hevents]
  cases hpage : events p with
  | nil => rfl
  | cons event rest =>
    have htrue : truthy (.arr (event :: rest)) = true := rfl
    have helements : elements (.arr (event :: rest)) = .ok (event :: rest) := rfl
    rw [if_pos htrue, if_neg (List.cons_ne_nil _ _), helements, ok_bind]
    cases collect (toRawItem py) (event :: rest) with
    | error e => rfl
    | ok found =>
      rw [ok_bind, hlast, ok_bind]
      rfl

/-- A page that can be read, and is not the last. -/
theorem logged_next (hserver : Answers server events total) (hp : p * pageSize < window)
    (hshort : (survivors (toRawItem py) (firstPages events p)).length < maxEvents)
    (hread : ∀ event ∈ events p, (toRawItem py event).isOk = true) (hne : events p ≠ [])
    (hmore : p + 1 < total) :
    logged py server (fuel + 1) p (survivors (toRawItem py) (firstPages events p)) =
      let rest := logged py server fuel (p + 1)
        (survivors (toRawItem py) (firstPages events (p + 1)))
      (p :: rest.1, rest.2) := by
  have hpage : readPage py server p =
      .ok (some (survivors (toRawItem py) (events p), false)) := by
    rw [readPage_eq hserver hp, if_neg hne, collect_eq hread, decide_eq_false (by omega)]
    rfl
  rw [logged, if_neg (by omega), firstPages_succ, survivors_append]
  simp only [hpage]

/-- The loop gets to every page that it reaches over pages that can be read. -/
theorem logged_reaches (fuel : ℕ) (hserver : Answers server events total) (hreach : Reaches py events total p)
    (hgood : ∀ q < p, q * pageSize < window ∧ ∀ event ∈ events q, (toRawItem py event).isOk = true) :
    logged py server (fuel + p) 0 [] =
      let rest := logged py server fuel p (survivors (toRawItem py) (firstPages events p))
      (List.range p ++ rest.1, rest.2) := by
  induction p generalizing fuel with
  | zero => rfl
  | succ p ih =>
    have hbefore : Reaches py events total p := hreach.before (Nat.le_succ p)
    have hpage := hgood p (Nat.lt_succ_self p)
    have hmore : p + 1 < total := by
      rcases hreach.exists_page with hzero | hlt
      · omega
      · exact hlt
    have hstart := ih (fuel + 1) hbefore fun q hq => hgood q (by omega)
    have hturns : fuel + (p + 1) = fuel + 1 + p := by omega
    rw [hturns, hstart, logged_next hserver hpage.1 hbefore.short hpage.2
      (hreach.nonempty p (Nat.lt_succ_self p)) hmore, List.range_succ]
    simp

/-- Over pages inside the window that can be read the loop ends, with what the pages it has read
yield. -/
theorem logged_ends (p fuel : ℕ) (hserver : Answers server events total)
    (hgood : ∀ q, Reaches py events total q →
      q * pageSize < window ∧ ∀ event ∈ events q, (toRawItem py event).isOk = true)
    (hpage : p = 0 ∨ p < total) (hnonempty : ∀ q < p, events q ≠ [])
    (hfuel : total ≤ p + fuel ∧ 0 < p + fuel) :
    ∃ n, logged py server fuel p (survivors (toRawItem py) (firstPages events p)) =
        (List.range' p n, some (.ok (survivors (toRawItem py) (firstPages events (p + n))))) ∧
      ∀ q, p ≤ q → q < p + n → q * pageSize < window := by
  induction fuel generalizing p with
  | zero => omega
  | succ fuel ih =>
    by_cases hfull : maxEvents ≤ (survivors (toRawItem py) (firstPages events p)).length
    · refine ⟨0, ?_, fun q _ _ => by omega⟩
      rw [logged, if_pos hfull]
      rfl
    · have hreach : Reaches py events total p := ⟨hpage, hnonempty, by omega⟩
      obtain ⟨hwindow, hread⟩ := hgood p hreach
      have hinside : ∀ q, p ≤ q → q < p + 1 → q * pageSize < window := by
        intro q hle hlt
        obtain rfl : q = p := by omega
        exact hwindow
      by_cases hempty : events p = []
      · refine ⟨1, ?_, hinside⟩
        have hsame : firstPages events (p + 1) = firstPages events p := by
          rw [firstPages_succ, hempty, List.append_nil]
        rw [logged, if_neg hfull, hsame, readPage_eq hserver hwindow, if_pos hempty]
        rfl
      · by_cases hmore : p + 1 < total
        · obtain ⟨n, hn, hrest⟩ := ih (p + 1) (.inr hmore) (by
            intro q hq
            rcases Nat.lt_or_ge q p with hlt | hge
            · exact hnonempty q hlt
            · obtain rfl : q = p := by omega
              exact hempty) (by omega)
          refine ⟨n + 1, ?_, fun q hle hlt => ?_⟩
          · have hend : p + (n + 1) = p + 1 + n := by omega
            rw [logged_next hserver hwindow hreach.short hread hempty hmore, hn, hend]
            rfl
          · rcases Nat.lt_or_ge p q with hpq | hpq
            · exact hrest q hpq (by omega)
            · exact hinside q hle (by omega)
        · refine ⟨1, ?_, hinside⟩
          rw [logged, if_neg hfull, firstPages_succ, survivors_append, readPage_eq hserver hwindow,
            if_neg hempty, collect_eq hread, decide_eq_true (by omega)]
          rfl

theorem mem_logged {items : List (Fetched δ)} (h : items.length < maxEvents) :
    p ∈ (logged py server (fuel + 1) p items).1 := by
  rw [logged, if_neg (by omega)]
  dsimp only
  split <;> simp

/-- A page with an event that cannot be read ends the loop in an exception. -/
theorem logged_raises (fuel : ℕ) (hserver : Answers server events total) (hp : p * pageSize < window)
    {items : List (Fetched δ)} (h : items.length < maxEvents)
    (hfail : ¬∀ event ∈ events p, (toRawItem py event).isOk = true) :
    ∃ e, (logged py server (fuel + 1) p items).2 = some (.error e) := by
  have hne : events p ≠ [] := by
    intro hnil
    rw [hnil] at hfail
    exact hfail (List.forall_mem_nil _)
  cases hcollect : collect (toRawItem py) (events p) with
  | error e =>
    refine ⟨e, ?_⟩
    rw [logged, if_neg (by omega), readPage_eq hserver hp, if_neg hne, hcollect]
    rfl
  | ok found =>
    refine absurd (collect_isOk_iff.mp ?_) hfail
    rw [hcollect, ok_isOk]

theorem fetch_logged (py : Platform δ) (server : ℕ → ℕ → Attempt) (fuel : ℕ) :
    fetch py true server fuel =
      (logged py server fuel 0 []).2.map fun items => items.map fun items => items.take maxEvents := by
  rw [logged_result]
  rfl

/-- The fetch stays inside the window, ends and returns the first usable events of the pages it has
read exactly where every page that it reaches is inside and can be read. -/
theorem pages_in_window_iff (hserver : Answers server events total) (hfuel : total < fuel) :
    InWindow py server events fuel ↔ ∀ p, Reaches py events total p →
      p * pageSize < window ∧ ∀ event ∈ events p, Readable py event := by
  simp only [← toRawItem_isOk_iff]
  constructor
  · rintro ⟨n, hrequests, hinside, hfetch⟩ p
    rw [fetch_logged] at hfetch
    induction p using Nat.strong_induction_on with
    | _ p ih =>
      intro hreach
      have hgood := fun q (hq : q < p) => ih q hq (hreach.before (Nat.le_of_lt hq))
      have hp : p ≤ total := by
        rcases hreach.exists_page with hzero | hlt <;> omega
      obtain ⟨more, rfl⟩ : ∃ more, fuel = more + 1 + p := ⟨fuel - 1 - p, by omega⟩
      have hlog := logged_reaches (more + 1) hserver hreach hgood
      have hwindow : p * pageSize < window := by
        apply hinside
        rw [← List.mem_range, ← hrequests, requests, hlog]
        exact List.mem_append_right _ (mem_logged hreach.short)
      refine ⟨hwindow, ?_⟩
      by_contra hfail
      obtain ⟨e, he⟩ := logged_raises more hserver hwindow hreach.short hfail
      rw [hlog] at hfetch
      simp [he, Except.map] at hfetch
  · intro hgood
    obtain ⟨n, hn, hinside⟩ := logged_ends 0 fuel hserver hgood (.inl rfl)
      (by intro q hq; omega) (by omega)
    have hstart : logged py server fuel 0 [] = _ := hn
    rw [Nat.zero_add] at hstart hinside
    refine ⟨n, ?_, fun q hq => hinside q (Nat.zero_le q) hq, ?_⟩
    · rw [requests, hstart, List.range_eq_range']
    · rw [fetch_logged, hstart]
      rfl

end Ticketmaster

/-! ## Pages all alike -/

theorem numLe_int (a b : ℤ) : numLe (.int a) (.int b) = decide (a ≤ b) := by
  simp only [numLe, extended, WithBot.coe_le_coe, WithTop.coe_le_coe, Int.cast_le]

/-- A server with the same events on every page, which answers any request. -/
def alike (events : List PyValue) (total : ℕ) : ℕ → ℕ → Ticketmaster.Attempt
  | _, _ => .answered 200 (.ok (.obj [
      (ascii "_embedded", .obj [(ascii "events", .arr events)]),
      (ascii "page", .obj [(ascii "totalPages", .num (.int total))])]))

theorem answers_alike (events : List PyValue) (total : ℕ) :
    Ticketmaster.Answers (alike events total) (fun _ => events) total where
  inside p _ := by
    refine ⟨_, rfl, rfl, rfl, rfl, ?_⟩
    have hlast : numLe (.int total) (.int ((p : ℤ) + 1)) = decide (total ≤ p + 1) := by
      rw [numLe_int]
      exact decide_eq_decide.mpr (by omega)
    exact congrArg Except.ok hlast

theorem pages_in_window_iff_gig : Ticketmaster.InWindow isoDates (alike [ticketmasterRecord gig] 1)
    (fun _ => [ticketmasterRecord gig]) 2 := by
  refine (Ticketmaster.pages_in_window_iff (answers_alike _ 1) (by decide)).mpr fun p hreach => ?_
  obtain rfl : p = 0 := by
    rcases hreach.exists_page with hzero | hlt <;> omega
  refine ⟨by decide, fun event hevent => ?_⟩
  rw [List.mem_singleton.mp hevent]
  exact Ticketmaster.toRawItem_isOk_iff.mp (by decide +kernel)

/-- An event without a name, an address or a date. -/
def unusable : List PyValue := [.obj []]

theorem firstPages_unusable (n : ℕ) : survivors (Ticketmaster.toRawItem isoDates)
    (Ticketmaster.firstPages (fun _ => unusable) n) = [] := by
  induction n with
  | zero => rfl
  | succ n ih =>
    have hone : survivors (Ticketmaster.toRawItem isoDates) unusable = [] := rfl
    rw [Ticketmaster.firstPages_succ, Ticketmaster.survivors_append, ih, hone]
    rfl

theorem eleventh_page_requested : ¬∀ (server : ℕ → ℕ → Ticketmaster.Attempt)
    (events : ℕ → List PyValue) (total fuel : ℕ), Ticketmaster.Answers server events total →
      total < fuel → Ticketmaster.InWindow isoDates server events fuel := by
  intro h
  obtain ⟨n, hrequests, hinside, -⟩ := h _ _ 11 12 (answers_alike unusable 11) (by decide)
  have hreach : Ticketmaster.Reaches isoDates (fun _ => unusable) 11 10 :=
    ⟨.inr (by decide), fun _ _ => List.cons_ne_nil _ _, by rw [firstPages_unusable]; decide⟩
  have hlog := Ticketmaster.logged_reaches 2 (answers_alike unusable 11) hreach fun q hq =>
    ⟨by unfold Ticketmaster.pageSize Ticketmaster.window; omega,
      by rw [unusable, List.forall_mem_singleton]; rfl⟩
  have hasked : 10 ∈ Ticketmaster.requests isoDates (alike unusable 11) 12 := by
    rw [Ticketmaster.requests, hlog]
    exact List.mem_append_right _ (Ticketmaster.mem_logged hreach.short)
  rw [hrequests, List.mem_range] at hasked
  exact absurd (hinside 10 hasked) (by decide)

end WarsawEvents.Ingestion
