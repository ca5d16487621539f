import Mathlib.Algebra.Order.Ring.Rat
import Mathlib.Data.List.Dedup
import Mathlib.Order.WithBot
import Mathlib.Tactic.NormNum
import WarsawEvents.Foundations.IsoFormat
import WarsawEvents.Foundations.OrderBy
import WarsawEvents.Ingestion.Cards
import WarsawEvents.Search.EventStream

/-! # Retrieval

`backend/app/retrieval/search.py`: the filters of an intent, the two legs, their fusion, and the path
without it. A query is a filter on the table, an order that the engine makes, and a limit.

What PostgreSQL, pgvector and pg_trgm compute is a parameter: the order, the distance, the similarity, and
the time zone that the session reads a timestamp without an offset in. -/

namespace WarsawEvents.Retrieval
open Ingestion (Card)
open Json (Text ascii)
set_option autoImplicit false

/-- The `items` table, of which the ids are the primary key. -/
structure ItemTable where
  cards : List Card
  keyed : (cards.map Card.id).Nodup

abbrev Intent := Search.Intent ℚ

/-- `float8`, as far as scores need it: reciprocals and sums, each within a unit in the last place. -/
structure Scores where
  inverse : ℕ → ℚ
  plus : ℚ → ℚ → ℚ
  inverse_near : ∀ n, 1 ≤ n → n ≤ 128 → |inverse n - 1 / n| ≤ 1 / 1000000000000000
  plus_near : ∀ a b, 1 / 128 ≤ a → a ≤ 1 → 1 / 128 ≤ b → b ≤ 1 →
    |plus a b - (a + b)| ≤ 1 / 1000000000000000

/-- What the queries are answered with. -/
structure Postgres (δ σ : Type) extends OrderBy.Engine, Scores where
  /-- The instant that a timestamp without an offset stands for in the session. -/
  zoned : ℤ → ℤ
  /-- `<=>`. -/
  cosineDistance : List ℚ → List ℚ → δ
  wordSimilarity : String → Text → σ
  /-- `name <% query`. -/
  wordMatch : String → Text → Bool

structure Settings (δ : Type) where
  hybridSearch : Bool
  searchMaxDistance : δ

/-- Scores without rounding. -/
def exactScores : Scores where
  inverse n := 1 / n
  plus a b := a + b
  inverse_near n _ _ := by
    rw [sub_self, abs_zero]
    norm_num
  plus_near a b _ _ _ _ := by
    rw [sub_self, abs_zero]
    norm_num

/-- A server in UTC that sorts everything; of the two extensions it has equality only. -/
def utcPostgres : Postgres ℚ ℚ where
  toEngine := OrderBy.stable
  toScores := exactScores
  zoned wall := wall
  cosineDistance a b := if a = b then 0 else 1
  wordSimilarity name query := if ascii name = query then 1 else 0
  wordMatch name query := ascii name = query

def rrfK : ℕ := 60

def candidatePool : ℕ := 50

/-! ## Filters -/

/-- `_dt`. -/
def dt : Option Text → Option IsoFormat.Stamp
  | none => none
  | some value => if value.isEmpty then none else IsoFormat.fromisoformat value

/-- `price <= budget`; NaN and infinity are above every price. -/
def withinBudget (price : ℚ) : Search.PyFloat ℚ → Bool
  | .finite budget => price ≤ budget
  | .nan => true
  | .inf => true
  | .negInf => false

section Queries
variable {δ σ : Type} (pg : Postgres δ σ) (intent : Intent)

def Postgres.instant (s : IsoFormat.Stamp) : ℤ :=
  match s.offset with
  | some offset => s.wall - offset
  | none => pg.zoned s.wall

def dateCondition (dateFrom dateTo : IsoFormat.Stamp) (c : Card) : Bool :=
  (c.startsAt.any fun s => pg.instant dateFrom ≤ s.instant && s.instant ≤ pg.instant dateTo) ||
    c.isPermanent

def budgetCondition (budgetMax : Search.PyFloat ℚ) (c : Card) : Bool :=
  (c.priceFrom.any fun price => withinBudget price budgetMax) || c.priceFrom.isNone

def categoryCondition (categories : List Text) (c : Card) : Bool :=
  c.category.any fun category => categories.contains (ascii category)

/-- `_filter_conditions`. -/
def filterConditions : List (Card → Bool) :=
  (match dt intent.dateFrom, dt intent.dateTo with
    | some dateFrom, some dateTo => [dateCondition pg dateFrom dateTo]
    | _, _ => []) ++
  (match intent.budgetMax with
    | some budgetMax => [budgetCondition budgetMax]
    | none => []) ++
  (if intent.categories.isEmpty then [] else [categoryCondition intent.categories])

def meets (conds : List (Card → Bool)) (c : Card) : Bool := conds.all fun cond => cond c

/-! ## Fusion -/

variable (settings : Settings δ) (table : ItemTable)

/-- `sum(1.0 / (RRF_K + rank))`. -/
def rrf (ranks : List ℕ) : ℚ :=
  match ranks.map fun rank => pg.inverse (rrfK + rank) with
  | [] => 0
  | score :: scores => scores.foldl pg.plus score

/-- `GROUP BY id`, with the score of each id. -/
def scored (ranked : List (ℕ × ℕ)) : List (ℕ × ℚ) :=
  (ranked.map Prod.fst).dedup.map fun id =>
    (id, rrf pg ((ranked.filter fun r => r.1 = id).map Prod.snd))

def fused (ranked : List (ℕ × ℕ)) (limit : ℕ) : List (ℕ × ℚ) :=
  (pg.order (fun f => OrderDual.toDual f.2) (scored pg ranked)).take limit

/-- The join with the items, in the order of the scores. -/
def joined (best : List (ℕ × ℚ)) : List Card :=
  (pg.order (fun row : Card × ℚ => OrderDual.toDual row.2)
    (table.cards.flatMap fun c => (best.filter fun f => c.id = f.1).map fun f => (c, f.2))).map
    Prod.fst

/-! ## The legs -/

variable [LinearOrder δ] [LinearOrder σ]

/-- The distance of a card, NULL without an embedding: it sorts last. -/
def distanceTo (queryEmbedding : List ℚ) (c : Card) : WithTop δ :=
  match c.embedding with
  | some embedding => some (pg.cosineDistance embedding queryEmbedding)
  | none => none

/-- `embedding IS NOT NULL AND distance <= max`. -/
def isNear (queryEmbedding : List ℚ) (c : Card) : Bool :=
  c.embedding.any fun embedding =>
    pg.cosineDistance embedding queryEmbedding ≤ settings.searchMaxDistance

/-- The ids with their `row_number()`, as many as a leg may have. -/
def ranking (cards : List Card) : List (ℕ × ℕ) := ((cards.map Card.id).zipIdx 1).take candidatePool

/-- `_semantic_leg`. -/
def semanticLeg (queryEmbedding : List ℚ) (conds : List (Card → Bool)) : List (ℕ × ℕ) :=
  ranking (pg.order (distanceTo pg queryEmbedding)
    (table.cards.filter fun c => isNear pg settings queryEmbedding c && meets conds c))

/-- `_lexical_leg`. -/
def lexicalLeg (textQuery : Text) (conds : List (Card → Bool)) : List (ℕ × ℕ) :=
  ranking (pg.order (fun c => OrderDual.toDual (pg.wordSimilarity c.name textQuery))
    (table.cards.filter fun c => pg.wordMatch c.name textQuery && meets conds c))

/-! ## The searches -/

/-- `_hybrid_search`. -/
def hybridSearch (queryEmbedding : Option (List ℚ)) (textQuery : Text) (limit : ℕ) : List Card :=
  let conds := filterConditions pg intent
  let ranked := lexicalLeg pg table textQuery conds ++
    match queryEmbedding with
    | some embedding => semanticLeg pg settings table embedding conds
    | none => []
  joined pg table (fused pg ranked limit)

/-- `_semantic_search`. -/
def semanticSearch (queryEmbedding : Option (List ℚ)) (limit : ℕ) : List Card :=
  let conds := filterConditions pg intent
  match queryEmbedding with
  | some embedding =>
    (pg.order (distanceTo pg embedding)
      ((table.cards.filter (meets conds)).filter (isNear pg settings embedding))).take limit
  | none => (pg.scan (table.cards.filter (meets conds))).take limit

/-- `search_items`. -/
def searchItems (queryEmbedding : Option (List ℚ)) (textQuery : Option Text) (limit : ℕ) : List Card :=
  match textQuery with
  | some text =>
    if settings.hybridSearch && !text.isEmpty
    then hybridSearch pg intent settings table queryEmbedding text limit
    else semanticSearch pg intent settings table queryEmbedding limit
  | none => semanticSearch pg intent settings table queryEmbedding limit

end Queries

end WarsawEvents.Retrieval
