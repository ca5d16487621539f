import WarsawEvents.Ingestion.Readable

/-! # What one record costs a fetch

Both adapters let through what `_to_raw_item` raises, so that a record they cannot read takes all the
others with it. A fetch returns what its records yield exactly when it can read every record it gets to.
-/

namespace WarsawEvents.Ingestion
open Json (Text Value ascii)
set_option autoImplicit false

variable {δ : Type}

/-- What a record yields, if `_to_raw_item` does not raise on it. -/
def yields (toRawItem : PyValue → Py (Option (Fetched δ))) (event : PyValue) : Option (Fetched δ) :=
  match toRawItem event with
  | .ok item => item
  | .error _ => none

/-- What the records yield, those that it raises on left out. -/
def survivors (toRawItem : PyValue → Py (Option (Fetched δ))) (events : List PyValue) :
    List (Fetched δ) :=
  events.filterMap (yields toRawItem)

section Collect
variable {toRawItem : PyValue → Py (Option (Fetched δ))} {events : List PyValue}

theorem collect_eq (h : ∀ event ∈ events, (toRawItem event).isOk = true) :
    collect toRawItem events = .ok (survivors toRawItem events) := by
  induction events with
  | nil => rfl
  | cons event events ih =>
    rw [List.forall_mem_cons] at h
    obtain ⟨item, hitem⟩ := isOk_iff_exists.mp h.1
    have hyields : yields toRawItem event = item := by
      unfold yields
      rw [hitem]
    unfold collect
    rw [hitem, ok_bind, ih h.2, ok_bind]
    unfold survivors
    rw [List.filterMap_cons, hyields]
    cases item <;> rfl

theorem collect_isOk_iff : (collect toRawItem events).isOk = true ↔
    ∀ event ∈ events, (toRawItem event).isOk = true := by
  constructor
  · intro h
    induction events with
    | nil => exact List.forall_mem_nil _
    | cons event events ih =>
      unfold collect at h
      rw [bind_isOk_iff] at h
      obtain ⟨item, hitem⟩ := isOk_iff_exists.mp h.1
      have hrest := h.2 item hitem
      rw [bind_isOk_iff] at hrest
      exact List.forall_mem_cons.mpr ⟨h.1, ih hrest.1⟩
  · intro h
    rw [collect_eq h, ok_isOk]

theorem collect_eq_iff : collect toRawItem events = .ok (survivors toRawItem events) ↔
    ∀ event ∈ events, (toRawItem event).isOk = true := by
  refine ⟨fun h => ?_, collect_eq⟩
  rw [← collect_isOk_iff, h, ok_isOk]

end Collect

namespace Facebook

theorem fetch_eq_iff {py : Platform δ} {records : List PyValue} :
    fetch py true (.ok (.arr records)) = .ok (survivors (toRawItem py) records) ↔
      ∀ event ∈ records, Readable py event := by
  have hfetch : fetch py true (.ok (.arr records)) = collect (toRawItem py) records := rfl
  rw [hfetch, collect_eq_iff]
  simp only [toRawItem_isOk_iff]

end Facebook

namespace Ticketmaster

/-- The events of a search, page by page, and a server that answers each request for one of the pages,
if need be at the second or third attempt. -/
structure Serves (server : ℕ → ℕ → Attempt) (pages : List (List PyValue)) : Prop where
  some_page : pages ≠ []
  answers : ∀ p page, pages[p]? = some page → ∃ payload,
    getPage server p 0 maxRetries = .ok payload ∧
    isObject payload = true ∧ isObject (fieldD payload "_embedded" (.obj [])) = true ∧
    fieldD (fieldD payload "_embedded" (.obj [])) "events" (.arr []) = .arr page ∧
    isLast p payload = .ok (p + 1 = pages.length)

/-- The events up to the first empty page. -/
def listed (pages : List (List PyValue)) : List PyValue :=
  (pages.takeWhile fun page => !page.isEmpty).flatten

/-- The fetch gets past these pages: none is empty, and they yield less than it looks for. -/
def GetsPast (py : Platform δ) (before : List (List PyValue)) : Prop :=
  (∀ page ∈ before, page ≠ []) ∧ (survivors (toRawItem py) before.flatten).length < maxEvents

section Pages
variable {py : Platform δ} {server : ℕ → ℕ → Attempt} {pages before rest : List (List PyValue)}
  {page : List PyValue} {items : List (Fetched δ)} {p fuel : ℕ}

/-- One turn of the loop. -/
theorem readPages_succ (hserves : Serves server pages) (hpage : pages[p]? = some page)
    (hitems : items.length < maxEvents) :
    readPages py server (fuel + 1) p items =
      if page = [] then some (.ok items)
      else
        match collect (toRawItem py) page with
        | .error e => some (.error e)
        | .ok found =>
          if p + 1 = pages.length then some (.ok (items ++ found))
          else readPages py server fuel (p + 1) (items ++ found) := by
  obtain ⟨payload, hget, hobj, hembedded, hevents, hlast⟩ := hserves.answers p page hpage
  conv_lhs => unfold readPages
  rw [if_neg (by omega)]
  simp only [hget, ok_bind, getD_eq hobj, getD_eq hembedded, hevents]
  cases page with
  | nil => rfl
  | cons event events =>
    have htrue : truthy (.arr (event :: events)) = true := rfl
    rw [if_pos htrue, if_neg (List.cons_ne_nil _ _)]
    have helements : elements (.arr (event :: events)) = .ok (event :: events) := rfl
    rw [helements, ok_bind]
    cases collect (toRawItem py) (event :: events) with
    | error e => rfl
    | ok found =>
      rw [ok_bind, hlast, ok_bind]
      by_cases hend : p + 1 = pages.length
      · rw [decide_eq_true hend]
        exact (if_pos hend).symm
      · rw [decide_eq_false hend]
        exact (if_neg hend).symm

theorem survivors_append (py : Platform δ) (events events' : List PyValue) :
    survivors (toRawItem py) (events ++ events') =
      survivors (toRawItem py) events ++ survivors (toRawItem py) events' :=
  List.filterMap_append

theorem survivors_next (py : Platform δ) (before : List (List PyValue)) (page : List PyValue) :
    survivors (toRawItem py) before.flatten ++ survivors (toRawItem py) page =
      survivors (toRawItem py) (before ++ [page]).flatten := by
  rw [← survivors_append]
  simp

variable (before) in
theorem listed_append (h : ∀ page ∈ before, page ≠ []) :
    listed (before ++ rest) = before.flatten ++ listed rest := by
  unfold listed
  rw [List.takeWhile_append_of_pos fun page hpage => by simp [h page hpage], List.flatten_append]

theorem listed_cons (h : page ≠ []) : listed (page :: rest) = page ++ listed rest := by
  have happend : listed ([page] ++ rest) = [page].flatten ++ listed rest :=
    listed_append [page] (by simpa using h)
  simpa using happend

variable (before) in
/-- With every record it gets to readable, the loop ends with what they yield. -/
theorem readPages_of_readable (hserves : Serves server pages)
    (h : ∀ before page after, pages = before ++ page :: after → GetsPast py before →
      ∀ event ∈ page, (toRawItem py event).isOk = true)
    (hpages : pages = before ++ rest) (hrest : rest ≠ []) (hfuel : rest.length ≤ fuel)
    (hbefore : ∀ page ∈ before, page ≠ []) :
    ∃ result, readPages py server fuel before.length (survivors (toRawItem py) before.flatten) =
        some (.ok result) ∧
      result.take maxEvents = (survivors (toRawItem py) (listed pages)).take maxEvents := by
  induction rest generalizing before fuel with
  | nil => exact absurd rfl hrest
  | cons page rest ih =>
    cases fuel with
    | zero => cases hfuel
    | succ fuel =>
      have hlisted : survivors (toRawItem py) (listed pages) =
          survivors (toRawItem py) before.flatten ++
            survivors (toRawItem py) (listed (page :: rest)) := by
        rw [hpages, listed_append before hbefore, survivors_append]
      by_cases hfull : maxEvents ≤ (survivors (toRawItem py) before.flatten).length
      · refine ⟨survivors (toRawItem py) before.flatten, ?_, ?_⟩
        · unfold readPages
          rw [if_pos hfull]
        · rw [hlisted, List.take_append_of_le_length hfull]
      · have hget : pages[before.length]? = some page := by simp [hpages]
        have hread := h before page rest hpages ⟨hbefore, by omega⟩
        rw [readPages_succ hserves hget (by omega), collect_eq hread]
        by_cases hempty : page = []
        · refine ⟨survivors (toRawItem py) before.flatten, if_pos hempty, ?_⟩
          have hnone : listed (page :: rest) = [] := by
            rw [hempty]
            rfl
          rw [hlisted, hnone]
          simp [survivors]
        · rw [if_neg hempty]
          simp only
          by_cases hend : before.length + 1 = pages.length
          · have hlast : rest = [] := by
              rw [hpages, List.length_append, List.length_cons] at hend
              exact List.eq_nil_of_length_eq_zero (by omega)
            rw [if_pos hend]
            refine ⟨_, rfl, ?_⟩
            rw [hlisted, hlast, listed_cons hempty]
            simp [listed]
          · rw [if_neg hend, survivors_next]
            have hmore : rest ≠ [] := by
              rintro rfl
              rw [hpages] at hend
              simp at hend
            have hnext := ih (before ++ [page]) (by simp [hpages]) hmore (by simpa using hfuel) (by
                intro q hq
                rcases List.mem_append.mp hq with hq | hq
                · exact hbefore q hq
                · rw [List.mem_singleton.mp hq]
                  exact hempty)
            rwa [List.length_append, List.length_singleton] at hnext

/-- A page with a record that cannot be read ends the loop. -/
theorem readPages_raises (hserves : Serves server pages) (hpage : pages[p]? = some page)
    (hitems : items.length < maxEvents)
    (hfail : ¬ ∀ event ∈ page, (toRawItem py event).isOk = true) :
    ∃ e, readPages py server (fuel + 1) p items = some (.error e) := by
  have hnonempty : page ≠ [] := by
    rintro rfl
    exact hfail (List.forall_mem_nil _)
  rw [readPages_succ hserves hpage hitems, if_neg hnonempty]
  cases hcollect : collect (toRawItem py) page with
  | error e => exact ⟨e, rfl⟩
  | ok found =>
    refine absurd (collect_isOk_iff.mp ?_) hfail
    rw [hcollect, ok_isOk]

variable (before) in
theorem readPages_of_unreadable {mid after : List (List PyValue)} (hserves : Serves server pages)
    (hpages : pages = before ++ mid ++ page :: after) (hpast : GetsPast py (before ++ mid))
    (hfail : ¬ ∀ event ∈ page, (toRawItem py event).isOk = true) (hfuel : mid.length < fuel) :
    ∃ e, readPages py server fuel before.length (survivors (toRawItem py) before.flatten) =
      some (.error e) := by
  induction mid generalizing before fuel with
  | nil =>
    cases fuel with
    | zero => cases hfuel
    | succ fuel =>
      rw [List.append_nil] at hpages hpast
      exact readPages_raises hserves (by simp [hpages]) hpast.2 hfail
  | cons next mid ih =>
    cases fuel with
    | zero => cases hfuel
    | succ fuel =>
      have hitems : (survivors (toRawItem py) before.flatten).length < maxEvents := by
        have hall := hpast.2
        rw [List.flatten_append, survivors_append, List.length_append] at hall
        omega
      have hget : pages[before.length]? = some next := by simp [hpages]
      by_cases hread : ∀ event ∈ next, (toRawItem py event).isOk = true
      · have hnonempty : next ≠ [] :=
          hpast.1 next (List.mem_append_right _ List.mem_cons_self)
        have hmore : before.length + 1 ≠ pages.length := by
          rw [hpages]
          simp
        rw [readPages_succ hserves hget hitems, if_neg hnonempty, collect_eq hread]
        simp only
        rw [if_neg hmore, survivors_next]
        have hnext := ih (before ++ [next]) (by simp [hpages])
          (by rwa [List.append_assoc, List.singleton_append]) (by simpa using hfuel)
        rwa [List.length_append, List.length_singleton] at hnext
      · exact readPages_raises hserves hget hitems hread

theorem fetch_eq_iff (hserves : Serves server pages) (hfuel : pages.length ≤ fuel) :
    fetch py true server fuel =
        some (.ok ((survivors (toRawItem py) (listed pages)).take maxEvents)) ↔
      ∀ before page after, pages = before ++ page :: after → GetsPast py before →
        ∀ event ∈ page, Readable py event := by
  simp only [← toRawItem_isOk_iff]
  unfold fetch
  rw [if_neg (by simp)]
  constructor
  · intro h before page after hpages hpast
    by_contra hfail
    have hlength : before.length < fuel := by
      have hlonger : before.length < pages.length := by
        rw [hpages, List.length_append, List.length_cons]
        omega
      omega
    obtain ⟨e, he⟩ := readPages_of_unreadable [] hserves (by simpa using hpages) hpast
      hfail hlength
    have hstart : readPages py server fuel 0 [] = some (.error e) := he
    rw [hstart] at h
    cases h
  · intro h
    obtain ⟨result, hresult, htake⟩ := readPages_of_readable [] hserves h rfl
      hserves.some_page hfuel (List.forall_mem_nil _)
    have hstart : readPages py server fuel 0 [] = some (.ok result) := hresult
    rw [hstart, ← htake]
    rfl

end Pages

end Ticketmaster

/-- Each fetch returns what its records yield, those it cannot read left out, exactly when there are
none that it cannot read. -/
theorem fetch_isolates_iff (py : Platform δ) :
    (∀ records, Facebook.fetch py true (.ok (.arr records)) =
        .ok (survivors (Facebook.toRawItem py) records) ↔
      ∀ event ∈ records, Facebook.Readable py event) ∧
    ∀ server pages fuel, Ticketmaster.Serves server pages → pages.length ≤ fuel →
      (Ticketmaster.fetch py true server fuel =
          some (.ok ((survivors (Ticketmaster.toRawItem py)
            (Ticketmaster.listed pages)).take Ticketmaster.maxEvents)) ↔
        ∀ before page after, pages = before ++ page :: after → Ticketmaster.GetsPast py before →
          ∀ event ∈ page, Ticketmaster.Readable py event) :=
  ⟨fun _ => Facebook.fetch_eq_iff, fun _ _ _ => Ticketmaster.fetch_eq_iff⟩

/-! ## A name that is a number -/

/-- A platform of which only the ISO dates matter. -/
def isoDates : Platform Text where
  double q := some q
  floatOfText _ := none
  repr _ := []
  fromIsoformat text := if text.length = 25 then some text else none
  fromTimestamp _ := .error .osError

def concertStart : PyValue := .str (ascii "2026-05-01T19:00:00+00:00")

/-- A record of the Facebook actor, in the middle of Warsaw. -/
def facebookRecord (name : PyValue) : PyValue :=
  .obj [(ascii "name", name), (ascii "url", .str (ascii "fb/1")), (ascii "utcStartDate", concertStart),
    (ascii "location", .obj [(ascii "latitude", .num (.int 52)),
      (ascii "longitude", .num (.int 21))])]

def ticketmasterRecord (name : PyValue) : PyValue :=
  .obj [(ascii "name", name), (ascii "url", .str (ascii "tm/1")),
    (ascii "dates", .obj [(ascii "start", .obj [(ascii "dateTime", concertStart)])])]

def gig : PyValue := .str (ascii "Gig")

/-- A server that answers the second attempt, with the one page there is. -/
def onePage (events : List PyValue) : ℕ → ℕ → Ticketmaster.Attempt
  | _, 0 => .transportError
  | _, _ + 1 => .answered 200 (.ok (.obj [
      (ascii "_embedded", .obj [(ascii "events", .arr events)]),
      (ascii "page", .obj [(ascii "totalPages", .num (.int 1))])]))

theorem serves_onePage (events : List PyValue) : Ticketmaster.Serves (onePage events) [events] := by
  refine ⟨List.cons_ne_nil _ _, fun p page hpage => ?_⟩
  cases p with
  | zero =>
    cases hpage
    exact ⟨_, rfl, rfl, rfl, rfl, rfl⟩
  | succ p => cases hpage

theorem fetch_isolates_iff_gig :
    Ticketmaster.fetch isoDates true (onePage [ticketmasterRecord gig]) 1 =
      some (.ok ((survivors (Ticketmaster.toRawItem isoDates)
        (Ticketmaster.listed [[ticketmasterRecord gig]])).take Ticketmaster.maxEvents)) := by
  refine ((fetch_isolates_iff isoDates).2 _ _ 1 (serves_onePage _) le_rfl).mpr ?_
  intro before page after hpages _ event hevent
  have hpage : page ∈ [[ticketmasterRecord gig]] := by
    rw [hpages]
    exact List.mem_append_right _ List.mem_cons_self
  rw [List.mem_singleton] at hpage
  rw [hpage, List.mem_singleton] at hevent
  rw [hevent]
  exact Ticketmaster.toRawItem_isOk_iff.mp (by decide +kernel)

theorem number_discards_all :
    (¬ ∀ records, Facebook.fetch isoDates true (.ok (.arr records)) =
      .ok (survivors (Facebook.toRawItem isoDates) records)) ∧
    ¬ ∀ server pages fuel, Ticketmaster.Serves server pages → pages.length ≤ fuel →
      Ticketmaster.fetch isoDates true server fuel =
        some (.ok ((survivors (Ticketmaster.toRawItem isoDates)
          (Ticketmaster.listed pages)).take Ticketmaster.maxEvents)) := by
  constructor
  · intro h
    have hraises : (Facebook.fetch isoDates true (.ok (.arr
        [facebookRecord gig, facebookRecord (.num (.int 5))]))).isOk = false := by decide +kernel
    rw [h, ok_isOk] at hraises
    cases hraises
  · intro h
    have hraises : ((Ticketmaster.fetch isoDates true (onePage
        [ticketmasterRecord gig, ticketmasterRecord (.num (.int 5))]) 1).map
          Except.isOk) = some false := by decide +kernel
    rw [h _ _ 1 (serves_onePage _) le_rfl] at hraises
    cases hraises

end WarsawEvents.Ingestion
