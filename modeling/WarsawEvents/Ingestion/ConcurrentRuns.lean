import WarsawEvents.Foundations.Runs
import WarsawEvents.Ingestion.Pipeline

/-! # Ingestion runs side by side

The jobs of different sources over one catalog. A run loads the catalog and deduplicates against its
copy, commits its merges, and issues its two upserts; any other run may take a step in between. The
commit writes the whole `sources` list of a card it merged into, computed from the copy.
-/

namespace WarsawEvents.Ingestion
set_option autoImplicit false

/-- What the run of one source works with. -/
structure Job where
  items : List RawItem
  voyage : Voyage
  adjudicate : Option Adjudicator

inductive Phase where
  | waiting
  | deduplicated (existing : List Card) (found : Deduped)
  | merged (canonical : List RawItem)
  | upserted (canonical : List RawItem)
  | finished (raised : Bool)

/-- A move of one run; a load names the order in which the SELECT returned the rows. -/
inductive Move where
  | load (existing : List Card)
  | commit
  | upsertEmbedded
  | upsertRest

structure Shared where
  catalog : Catalog
  phases : ℕ → Phase := fun _ => .waiting

def Shared.goTo (w : Shared) (job : ℕ) (phase : Phase) : Shared :=
  { w with phases := Function.update w.phases job phase }

/-- The upsert of one run, and what it is in afterwards. -/
def Shared.afterUpsert (w : Shared) (job : ℕ) (result : Option Catalog) (phase : Phase) : Shared :=
  match result with
  | some catalog => { w with catalog := catalog }.goTo job phase
  | none => w.goTo job (.finished true)

variable (m : Matching) (jobs : ℕ → Job)

/-- One move of one run, with the references it stored by merging. -/
def advance (w : Shared) (move : ℕ × Move) : Option (Shared × List (ℕ × Ref)) :=
  let job := jobs move.1
  match move.2, w.phases move.1 with
  | .load existing, .waiting =>
    if existing.Perm w.catalog.rows then
      let found := deduplicate m job.items existing job.adjudicate
      some (w.goTo move.1 (.deduplicated existing found), [])
    else none
  | .commit, .deduplicated existing found =>
    let rows := commitMerges existing found.merges w.catalog.rows
    some ({ w with catalog := { w.catalog with rows := rows } }.goTo move.1 (.merged found.canonical),
      found.merges)
  | .upsertEmbedded, .merged canonical =>
    let result := upsert (embedded job.voyage canonical) true w.catalog
    some (w.afterUpsert move.1 result (.upserted canonical), [])
  | .upsertRest, .upserted canonical =>
    let result := upsert (notEmbedded job.voyage canonical) false w.catalog
    some (w.afterUpsert move.1 result (.finished false), [])
  | _, _ => none

abbrev Log := List ((ℕ × Move) × List (ℕ × Ref))

/-- Every reference the runs have merged so far, with its card. -/
def mergedRefs (past : Log) : List (ℕ × Ref) := past.flatMap Prod.snd

/-- The list of some stored card with this id holds the reference. -/
def Stored (rows : List Card) (id : ℕ) (ref : Ref) : Prop := ∃ c ∈ rows, c.id = id ∧ ref ∈ c.refs

/-- A commit overwrites nothing it has not seen: where it rewrites a list, every reference the list
holds by now was in the copy the run loaded, or is one the run merges itself. -/
def SeesAll (_past : Log) (w : Shared) (move : ℕ × Move) : Prop :=
  match move.2, w.phases move.1 with
  | .commit, .deduplicated existing found =>
    ∀ r ∈ w.catalog.rows, ∀ b ∈ existing.find? fun c => c.id = r.id,
      (b.mergeAll found.merges).sources ≠ b.sources →
        ∀ ref ∈ r.refs, ref ∈ b.refs ∨ (b.id, ref) ∈ found.merges
  | _, _ => True

instance (past : Log) (w : Shared) (move : ℕ × Move) : Decidable (SeesAll past w move) := by
  unfold SeesAll
  split <;> infer_instance

/-! ## What a move can do -/

variable {m jobs} {w w' : Shared} {merged : List (ℕ × Ref)} {move : ℕ × Move}

inductive Advanced (w : Shared) : ℕ × Move → Shared → List (ℕ × Ref) → Prop
  | loaded {job : ℕ} {existing : List Card} {found : Deduped} :
      existing.Perm w.catalog.rows →
      (∀ merge ∈ found.merges, ∃ e ∈ existing, e.id = merge.1) →
      Advanced w (job, .load existing) (w.goTo job (.deduplicated existing found)) []
  | committed {job : ℕ} {existing : List Card} {found : Deduped} :
      w.phases job = .deduplicated existing found →
      Advanced w (job, .commit)
        ({ w with catalog := { w.catalog with
            rows := w.catalog.rows.map (Card.committed existing found.merges) } }.goTo job
          (.merged found.canonical))
        found.merges
  | upserted {job : ℕ} {move : Move} {items : List RawItem} {fresh : Bool} {phase : Phase} :
      (∀ existing found, phase ≠ .deduplicated existing found) →
      Advanced w (job, move) (w.afterUpsert job (upsert items fresh w.catalog) phase) []

theorem advance_advanced (h : advance m jobs w move = some (w', merged)) :
    Advanced w move w' merged := by
  obtain ⟨job, move⟩ := move
  unfold advance at h
  simp only at h
  split at h
  · split at h
    · next hperm =>
      cases h
      exact Advanced.loaded hperm fun _ hmerge => merges_target hmerge
    · cases h
  · next hphase =>
    cases h
    rw [commitMerges_eq]
    exact Advanced.committed hphase
  · cases h
    exact Advanced.upserted fun _ _ => nofun
  · cases h
    exact Advanced.upserted fun _ _ => nofun
  · cases h

/-! ## What stays -/

/-- Every card is still there, with every reference it had. -/
def Grown (rows rows' : List Card) : Prop :=
  ∀ r ∈ rows, ∃ r' ∈ rows', r'.id = r.id ∧ ∀ ref ∈ r.refs, ref ∈ r'.refs

theorem Grown.refl (rows : List Card) : Grown rows rows := fun r hr => ⟨r, hr, rfl, fun _ h => h⟩

theorem Grown.trans {a b c : List Card} (hab : Grown a b) (hbc : Grown b c) : Grown a c := by
  intro r hr
  obtain ⟨r', hr', hid, hrefs⟩ := hab r hr
  obtain ⟨r'', hr'', hid', hrefs'⟩ := hbc r' hr'
  exact ⟨r'', hr'', hid'.trans hid, fun ref href => hrefs' ref (hrefs ref href)⟩

theorem Grown.stored {rows rows' : List Card} {id : ℕ} {ref : Ref} (h : Grown rows rows')
    (hstored : Stored rows id ref) : Stored rows' id ref := by
  obtain ⟨r, hr, hid, href⟩ := hstored
  obtain ⟨r', hr', hid', hrefs⟩ := h r hr
  exact ⟨r', hr', hid'.trans hid, hrefs ref href⟩

theorem upsert_grown {items : List RawItem} {fresh : Bool} {catalog catalog' : Catalog}
    (h : upsert items fresh catalog = some catalog') : Grown catalog.rows catalog'.rows := by
  intro c hc
  obtain ⟨c', hc', hid, hsources⟩ := upsert_keeps h hc
  refine ⟨c', hc', hid, fun ref href => ?_⟩
  unfold RawItem.refs at href ⊢
  rwa [hsources]

/-- A row after a commit that saw all of its references. -/
theorem refs_committed {existing : List Card} {merges : List (ℕ × Ref)} {r : Card}
    (hsees : ∀ b ∈ existing.find? fun c => c.id = r.id, (b.mergeAll merges).sources ≠ b.sources →
      ∀ ref ∈ r.refs, ref ∈ b.refs ∨ (b.id, ref) ∈ merges) :
    ∀ ref ∈ r.refs, ref ∈ (r.committed existing merges).refs := by
  intro ref href
  unfold Card.committed
  cases hfind : existing.find? fun c => c.id = r.id with
  | none => exact href
  | some b =>
    rcases WriteBack.writeBack_cases b.sources (b.mergeAll merges).sources r.sources with
      ⟨_, hwrite⟩ | ⟨hchanged, hwrite⟩
    · unfold RawItem.refs
      simp only [hwrite]
      exact href
    · have hin : ref ∈ (b.mergeAll merges).refs :=
        mem_refs_mergeAll_iff.mpr (hsees b hfind hchanged ref href)
      unfold RawItem.refs at hin ⊢
      simp only [hwrite]
      exact hin

/-- A merge is stored, when the loaded copies are still there. -/
theorem merge_stored {existing rows : List Card} {merges : List (ℕ × Ref)} {id : ℕ} {ref : Ref}
    (htarget : ∃ e ∈ existing, e.id = id) (hgrown : Grown existing rows)
    (hmerge : (id, ref) ∈ merges) : Stored (rows.map (Card.committed existing merges)) id ref := by
  obtain ⟨e, he, hid⟩ := htarget
  obtain ⟨b, hfind⟩ : ∃ b, existing.find? (fun c => c.id = id) = some b :=
    Option.isSome_iff_exists.mp (List.find?_isSome.mpr ⟨e, he, by simpa using hid⟩)
  have hb : b.id = id := by simpa using List.find?_some hfind
  obtain ⟨r, hr, hrid, hrefs⟩ := hgrown b (List.mem_of_find?_eq_some hfind)
  refine ⟨r.committed existing merges, List.mem_map_of_mem hr, by simp [hrid, hb], ?_⟩
  have hin : ref ∈ (b.mergeAll merges).refs :=
    mem_refs_mergeAll_iff.mpr (Or.inr (by rwa [hb]))
  unfold Card.committed
  rw [hrid, hb, hfind]
  rcases WriteBack.writeBack_cases b.sources (b.mergeAll merges).sources r.sources with
    ⟨hsame, hwrite⟩ | ⟨_, hwrite⟩
  · have hold : ref ∈ b.refs := by
      unfold RawItem.refs at hin ⊢
      rwa [hsame] at hin
    have hrow := hrefs ref hold
    unfold RawItem.refs at hrow ⊢
    simp only [hwrite]
    exact hrow
  · unfold RawItem.refs at hin ⊢
    simp only [hwrite]
    exact hin

/-! ## Every run -/

/-- Nothing stored or merged is lost so far, and a pending run's copies are still covered. -/
structure Kept (start : List Card) (past : Log) (w : Shared) : Prop where
  stored : ∀ id ref, Stored start id ref ∨ (id, ref) ∈ mergedRefs past →
    Stored w.catalog.rows id ref
  covered : ∀ job existing found, w.phases job = .deduplicated existing found →
    Grown existing w.catalog.rows
  targets : ∀ job existing found, w.phases job = .deduplicated existing found →
    ∀ merge ∈ found.merges, ∃ e ∈ existing, e.id = merge.1

theorem mergedRefs_snoc (past : Log) : mergedRefs (past ++ [(move, merged)]) =
    mergedRefs past ++ merged := by
  simp [mergedRefs]

theorem Kept.of_grown {start : List Card} {past : Log} (h : Kept start past w)
    (hgrown : Grown w.catalog.rows w'.catalog.rows)
    (hmerged : ∀ id ref, (id, ref) ∈ merged → Stored w'.catalog.rows id ref)
    (hpending : ∀ job existing found, w'.phases job = .deduplicated existing found →
      w.phases job = .deduplicated existing found ∨ (Grown existing w'.catalog.rows ∧
        ∀ merge ∈ found.merges, ∃ e ∈ existing, e.id = merge.1)) :
    Kept start (past ++ [(move, merged)]) w' where
  stored id ref hin := by
    rw [mergedRefs_snoc, List.mem_append, ← or_assoc] at hin
    rcases hin with hold | hnew
    · exact hgrown.stored (h.stored id ref hold)
    · exact hmerged id ref hnew
  covered job existing found hphase := by
    rcases hpending job existing found hphase with hold | hnew
    · exact (h.covered job existing found hold).trans hgrown
    · exact hnew.1
  targets job existing found hphase := by
    rcases hpending job existing found hphase with hold | hnew
    · exact h.targets job existing found hold
    · exact hnew.2

/-- A run that moves on is pending only if it has just loaded. -/
theorem goTo_phases {job other : ℕ} {phase : Phase} :
    (w.goTo job phase).phases other = if other = job then phase else w.phases other := by
  show Function.update w.phases job phase other = _
  rw [Function.update_apply]

theorem Kept.step {start : List Card} {past : Log} (h : Kept start past w)
    (hsees : SeesAll past w move) (hadv : Advanced w move w' merged) :
    Kept start (past ++ [(move, merged)]) w' := by
  cases hadv with
  | @loaded job existing found hperm htargets =>
    refine h.of_grown (Grown.refl _) (fun _ _ => nofun) fun other existing' found' hphase => ?_
    rw [goTo_phases] at hphase
    split_ifs at hphase with hjob
    · cases hphase
      exact Or.inr ⟨fun r hr => Grown.refl _ r (hperm.mem_iff.mp hr), htargets⟩
    · exact Or.inl hphase
  | @committed job existing found hphase =>
    unfold SeesAll at hsees
    simp only [hphase] at hsees
    refine h.of_grown ?_ ?_ fun other existing' found' hphase' => ?_
    · intro r hr
      exact ⟨_, List.mem_map_of_mem hr, Card.committed_id, refs_committed (hsees r hr)⟩
    · intro id ref hmerge
      exact merge_stored (h.targets job existing found hphase _ hmerge)
        (h.covered job existing found hphase) hmerge
    · rw [goTo_phases] at hphase'
      split_ifs at hphase' with hjob
      exact Or.inl hphase'
  | @upserted job move items fresh phase hnot =>
    unfold Shared.afterUpsert
    cases hupsert : upsert items fresh w.catalog with
    | none =>
      refine h.of_grown (Grown.refl _) (fun _ _ => nofun) fun other existing' found' hphase => ?_
      simp only at hphase
      rw [goTo_phases] at hphase
      split_ifs at hphase with hjob
      exact Or.inl hphase
    | some catalog' =>
      refine h.of_grown (upsert_grown hupsert) (fun _ _ => nofun)
        fun other existing' found' hphase => ?_
      simp only at hphase
      rw [goTo_phases] at hphase
      split_ifs at hphase with hjob
      · exact absurd hphase (hnot existing' found')
      · exact Or.inl hphase

/-- In every run whose commits see all they overwrite, every card's list holds what it held at the
start and every reference merged into it. -/
theorem merged_references_kept {start : Catalog} {past : Log}
    (hrun : Runs.Run (Runs.guarded SeesAll (advance m jobs)) [] { catalog := start } past w) :
    ∀ id ref, Stored start.rows id ref ∨ (id, ref) ∈ mergedRefs past →
      Stored w.catalog.rows id ref := by
  have hinit : Kept start.rows [] ({ catalog := start } : Shared) := by
    refine ⟨fun id ref h => ?_, fun _ _ _ => nofun, fun _ _ _ => nofun⟩
    rcases h with hold | hnew
    · exact hold
    · cases hnew
  have hkept : Kept start.rows past w := by
    refine hrun.invariant_of_init (Kept start.rows) ?_ hinit
    intro past w move w' hk hstep
    exact hk.step hstep.1 (advance_advanced hstep.2)
  exact hkept.stored

/-! ## Two sources meet at one card -/

def twoSources (job : ℕ) : Job where
  items := [if job = 0 then galaFrom "facebook" "fb/1" else galaFrom "fixtures" "fx/1"]
  voyage := noVoyage
  adjudicate := none

/-- What the first run makes of the gala. -/
def mergedGala : Card := storedGala.merge (1, (galaFrom "facebook" "fb/1").ref)

def inTurn : List (ℕ × Move) :=
  [(0, .load [storedGala]), (0, .commit), (1, .load [mergedGala]), (1, .commit)]

def overlapping : List (ℕ × Move) :=
  [(0, .load [storedGala]), (1, .load [storedGala]), (0, .commit), (1, .commit),
   (0, .upsertEmbedded), (0, .upsertRest), (1, .upsertEmbedded), (1, .upsertRest)]

/-- The log and the state of these moves. -/
def ran (G : Log → Shared → ℕ × Move → Prop) [∀ past w move, Decidable (G past w move)]
    (moves : List (ℕ × Move)) : Log × Shared :=
  (Runs.replay G (advance asciiNames twoSources) [] { catalog := oneGala } moves).getD
    ([], { catalog := oneGala })

theorem merged_references_kept_inTurn :
    Stored (ran SeesAll inTurn).2.catalog.rows 1 (galaFrom "facebook" "fb/1").ref := by
  have hrun : Runs.Run (Runs.guarded SeesAll (advance asciiNames twoSources)) []
      { catalog := oneGala } (ran SeesAll inTurn).1 (ran SeesAll inTurn).2 :=
    Runs.replay_getD_run _ _ _ _ inTurn _ (by decide +kernel)
  exact merged_references_kept hrun _ _ (Or.inr (by decide +kernel))

/-- Any order of moves. -/
theorem merged_reference_lost :
    ¬ ∀ (m : Matching) (jobs : ℕ → Job) (start : Catalog) (past : Log) (w : Shared),
      Keyed start.rows → Runs.Run (Runs.guarded Runs.anyStep (advance m jobs)) [] { catalog := start } past w →
      ∀ id ref, Stored start.rows id ref ∨ (id, ref) ∈ mergedRefs past →
        Stored w.catalog.rows id ref := by
  intro h
  have hrun : Runs.Run (Runs.guarded Runs.anyStep (advance asciiNames twoSources)) []
      { catalog := oneGala } (ran Runs.anyStep overlapping).1 (ran Runs.anyStep overlapping).2 :=
    Runs.replay_getD_run _ _ _ _ overlapping _ (by decide +kernel)
  have hmerged : (1, (galaFrom "facebook" "fb/1").ref) ∈ mergedRefs (ran Runs.anyStep overlapping).1 := by
    decide +kernel
  have hkeyed : Keyed oneGala.rows := ⟨by decide, by decide⟩
  have hstored := h _ _ _ _ _ hkeyed hrun _ _ (Or.inr hmerged)
  unfold Stored at hstored
  exact absurd hstored (by decide +kernel)

end WarsawEvents.Ingestion
