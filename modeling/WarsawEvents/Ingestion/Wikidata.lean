import WarsawEvents.Foundations.Batches
import WarsawEvents.Foundations.Chase
import WarsawEvents.Foundations.PyText
import WarsawEvents.Ingestion.Cards

/-! # Descriptions and photos from Wikidata

`app.ingestion.wikidata`: the entities by Q-id, the article each item asks for, and the extracts of the
articles by the title that was asked for. The answers of the two services are parameters; an error of
either raises. An item of `pairs` is known by its place in the list.
-/

namespace WarsawEvents.Ingestion
set_option autoImplicit false

namespace Wikidata

open Batches (batches)
open Chase (dict walk)

def wikidataBatch : ℕ := 50

def wikipediaBatch : ℕ := 20

def maxDescriptionChars : ℕ := 800

inductive Lang where
  | en
  | pl
  deriving DecidableEq, Repr

abbrev Title := String

/-- What is read of an entity. `photos` are the file names of claim P18. -/
structure Entity where
  enDescription : Option String := none
  plDescription : Option String := none
  enwiki : Option Title := none
  plwiki : Option Title := none
  photos : List (Option String) := []

/-- The `query` part of an answer: pages with their titles and extracts. -/
structure Query where
  normalized : List (Title × Title) := []
  redirects : List (Title × Title) := []
  pages : List (Title × Option String) := []

/-- An exception of `httpx`, a refused status included. -/
inductive HttpError where
  | raised
  deriving DecidableEq, Repr

structure Api where
  wbgetentities : List String → Except HttpError (List (String × Entity))
  query : Lang → List Title → Except HttpError Query

/-- Python's truth test of a text or `None`. -/
def truthy (s : Option String) : Option String := s.filter fun s => s ≠ ""

/-! ## Texts -/

/-- `text.split("\n\n")[0]`. -/
def firstParagraph : List Char → List Char
  | [] => []
  | c :: rest => if c = '\n' && rest.head? = some '\n' then [] else c :: firstParagraph rest

/-- `rfind` of two characters. -/
def rfind (a b : Char) : List Char → Option ℕ
  | [] => none
  | c :: rest =>
    match rfind a b rest with
    | some i => some (i + 1)
    | none => if c = a && rest.head? = some b then some 0 else none

/-- `_trim`; a `rfind` of -1 or 0 leaves the cut as it is. -/
def trim (text : String) : String :=
  let paragraph := firstParagraph (PyText.strip text).toList
  if paragraph.length ≤ maxDescriptionChars then String.ofList paragraph
  else
    let cut := paragraph.take maxDescriptionChars
    let lastSentenceEnd := max ((rfind '.' ' ' cut).getD 0) ((rfind '.' '\n' cut).getD 0)
    if 0 < lastSentenceEnd then String.ofList (cut.take (lastSentenceEnd + 1)) else String.ofList cut

def shortDescription (e : Entity) : Option String := e.enDescription <|> e.plDescription

def imageUrl (e : Entity) : Option String :=
  (truthy (e.photos.head?.join)).map fun filename =>
    "https://commons.wikimedia.org/wiki/Special:FilePath/" ++
      PyText.replaceChar filename ' ' "_" ++ "?width=800"

/-! ## Entities -/

/-- `entities.update(answer)`. -/
def updated (entities : String → Option Entity) (answer : List (String × Entity)) (qid : String) :
    Option Entity :=
  dict answer qid <|> entities qid

def fetchEntities (api : Api) (qids : List String) : Except HttpError (String → Option Entity) :=
  let unique := qids.dedup.mergeSort fun a b => decide (a ≤ b)
  (batches wikidataBatch unique).foldlM
    (fun entities ids => (api.wbgetentities ids).map (updated entities)) fun _ => none

/-! ## Extracts -/

def Query.renames (q : Query) : Title → Option Title := dict (q.normalized ++ q.redirects)

/-- Enough turns for every title. -/
def Query.turns (q : Query) : ℕ := (q.normalized ++ q.redirects).length + 1

/-- `by_final_title.get(final)`, where it is not empty. -/
def Query.extract (q : Query) (final : Title) : Option String := truthy (dict q.pages final).join

/-- The body of the loop over the titles of a batch. -/
def record (q : Query) (extracts : Title → Option String) (title : Title) : Title → Option String :=
  match (walk q.renames q.turns title []).bind q.extract with
  | some extract => Function.update extracts title (some extract)
  | none => extracts

def fetchExtracts (api : Api) (lang : Lang) (titles : List Title) :
    Except HttpError (Title → Option String) :=
  (batches wikipediaBatch titles).foldlM
    (fun extracts batch => (api.query lang batch).map fun q => batch.foldl (record q) extracts)
    fun _ => none

/-! ## `enrich` -/

/-- The first language with a title, and the title. -/
def article (e : Entity) : Option (Lang × Title) :=
  match truthy e.enwiki with
  | some title => some (.en, title)
  | none => (truthy e.plwiki).map fun title => (.pl, title)

/-- What the first loop does to an item with an entity. -/
def prepared (e : Entity) (item : RawItem) : RawItem :=
  { item with
    imageUrl := item.imageUrl <|> imageUrl e
    description := item.description <|> shortDescription e }

/-- `wanted_titles[lang].setdefault(title, []).append(item)`. -/
def appendTo (title : Title) (i : ℕ) : List (Title × List ℕ) → List (Title × List ℕ)
  | [] => [(title, [i])]
  | group :: groups =>
    if group.1 = title then (title, group.2 ++ [i]) :: groups else group :: appendTo title i groups

/-- The body of the loop over the sitelinks, for one language. -/
def addWanted (lang : Lang) (i : ℕ) (found : Option (Lang × Title))
    (groups : List (Title × List ℕ)) : List (Title × List ℕ) :=
  match found with
  | some (l, title) => if l = lang then appendTo title i groups else groups
  | none => groups

/-- `wanted_titles[lang]` after the pairs, the first of which stands at place `i`. -/
def wantedTitles (entities : String → Option Entity) (lang : Lang) :
    ℕ → List (RawItem × String) → List (Title × List ℕ) → List (Title × List ℕ)
  | _, [], groups => groups
  | i, (_, qid) :: pairs, groups =>
    wantedTitles entities lang (i + 1) pairs
      (addWanted lang i ((entities qid).bind article) groups)

def described (extract : String) (item : RawItem) : RawItem :=
  { item with description := some (trim extract) }

/-- The body of the second loop: the items that wait for one title. -/
def describeGroup (extracts : Title → Option String) (items : List RawItem)
    (group : Title × List ℕ) : List RawItem :=
  match truthy (extracts group.1) with
  | some extract => group.2.foldl (fun items i => items.modify i (described extract)) items
  | none => items

def describeAll (extracts : Title → Option String) (groups : List (Title × List ℕ))
    (items : List RawItem) : List RawItem :=
  groups.foldl (describeGroup extracts) items

def enrich (api : Api) (pairs : List (RawItem × String)) : Except HttpError (List RawItem) := do
  let entities ← fetchEntities api (pairs.map Prod.snd)
  let items := pairs.map fun (item, qid) => ((entities qid).map fun e => prepared e item).getD item
  let en := wantedTitles entities .en 0 pairs []
  let pl := wantedTitles entities .pl 0 pairs []
  let extracts ← fetchExtracts api .en (en.map Prod.fst)
  let items := describeAll extracts en items
  let extracts ← fetchExtracts api .pl (pl.map Prod.fst)
  pure (describeAll extracts pl items)

/-! ## The walk over the renames -/

variable {q : Query} {title e : Title}

theorem turns_enough (q : Query) (title : Title) {turns : ℕ} (h : q.turns ≤ turns) :
    (walk q.renames turns title []).isSome = true := by
  have hkeys : ∀ k, (q.renames k).isSome = true →
      k ∈ ((q.normalized ++ q.redirects).map Prod.fst).toFinset := by
    intro k hk
    obtain ⟨v, hv⟩ := Option.isSome_iff_exists.mp hk
    exact List.mem_toFinset.mpr (Chase.mem_keys_of_dict hv)
  refine Chase.walk_isSome hkeys _ _ _ ?_
  · have hcard : ((q.normalized ++ q.redirects).map Prod.fst).toFinset.card
        ≤ (q.normalized ++ q.redirects).length := by
      simpa using List.toFinset_card_le ((q.normalized ++ q.redirects).map Prod.fst)
    have hturns : q.turns = (q.normalized ++ q.redirects).length + 1 := rfl
    simp only [List.toFinset_nil, Finset.sdiff_empty]
    omega

theorem walk_ends (q : Query) (title : Title) :
    ∃ final, ∀ turns, q.turns ≤ turns → walk q.renames turns title [] = some final := by
  obtain ⟨final, hfinal⟩ := Option.isSome_iff_exists.mp (turns_enough q title (Nat.le_refl _))
  exact ⟨final, fun turns hturns => Chase.walk_mono hfinal hturns⟩

/-- What one title records: the extract where its walk ends. -/
theorem record_self (q : Query) (extracts : Title → Option String)
    (hends : walk q.renames q.turns title [] = some e) :
    record q extracts title title = (q.extract e <|> extracts title) := by
  unfold record
  rw [hends, Option.bind_some]
  cases q.extract e with
  | none => rfl
  | some extract => exact Function.update_self ..

theorem record_other (q : Query) (extracts : Title → Option String) {other : Title}
    (h : title ≠ other) : record q extracts other title = extracts title := by
  unfold record
  cases (walk q.renames q.turns other []).bind q.extract with
  | none => rfl
  | some extract => exact Function.update_of_ne h ..

theorem foldl_record_not_mem (q : Query) (batch : List Title) (extracts : Title → Option String)
    (h : title ∉ batch) : batch.foldl (record q) extracts title = extracts title := by
  induction batch generalizing extracts with
  | nil => rfl
  | cons other batch ih =>
    rw [List.mem_cons, not_or] at h
    rw [List.foldl_cons, ih _ h.2, record_other q extracts h.1]

theorem foldl_record_mem (q : Query) (batch : List Title) (extracts : Title → Option String)
    (hmem : title ∈ batch) (hends : walk q.renames q.turns title [] = some e) :
    batch.foldl (record q) extracts title = (q.extract e <|> extracts title) := by
  induction batch generalizing extracts with
  | nil => cases hmem
  | cons other batch ih =>
    rw [List.foldl_cons]
    rcases eq_or_ne title other with rfl | hne
    · by_cases hagain : title ∈ batch
      · rw [ih _ hagain, record_self q extracts hends]
        cases q.extract e <;> rfl
      · rw [foldl_record_not_mem q batch _ hagain, record_self q extracts hends]
    · rw [ih _ (List.mem_of_ne_of_mem hne hmem), record_other q extracts hne]

/-- Whatever renames and pages an answer has, the walk of every title ends. Where the chain of a title
does not repeat, what the batch records for it is the non-empty extract of the page at the end of the
chain, and nothing when there is none. -/
theorem renames_lead_to_the_page (q : Query) (batch : List Title) (extracts : Title → Option String) :
    (∀ title, ∃ final, ∀ turns, q.turns ≤ turns → walk q.renames turns title [] = some final) ∧
      (∀ title ∈ batch, Chase.Acyclic q.renames title → ∃ e, Chase.EndsAt q.renames title e ∧
        batch.foldl (record q) extracts title = (q.extract e <|> extracts title)) ∧
      ∀ title, title ∉ batch → batch.foldl (record q) extracts title = extracts title := by
  refine ⟨walk_ends q, fun title hmem hacyclic => ?_, fun title => foldl_record_not_mem q batch extracts⟩
  obtain ⟨e, hwalk⟩ := walk_ends q title
  have hends := hwalk q.turns (Nat.le_refl _)
  exact ⟨e, Chase.walk_of_acyclic hacyclic hends, foldl_record_mem q batch extracts hmem hends⟩

/-- A redirect in two steps, and a loop beside it. -/
def renamedTwice : Query :=
  { normalized := [("łazienki", "Łazienki"), ("A", "B")]
    redirects := [("Łazienki", "Łazienki Park"), ("B", "A")]
    pages := [("Łazienki Park", some "A park."), ("B", some "Not reached.")] }

theorem renamedTwice_ends : Chase.EndsAt renamedTwice.renames "łazienki" "Łazienki Park" :=
  ⟨⟨2, by decide +kernel⟩, by decide +kernel⟩

theorem renames_lead_to_the_page_twice :
    ∃ e, Chase.EndsAt renamedTwice.renames "łazienki" e ∧
      ["A", "łazienki"].foldl (record renamedTwice) (fun _ => none) "łazienki"
        = (renamedTwice.extract e <|> none) :=
  (renames_lead_to_the_page renamedTwice ["A", "łazienki"] fun _ => none).2.1 "łazienki" (by decide)
    renamedTwice_ends.acyclic

end Wikidata

end WarsawEvents.Ingestion
