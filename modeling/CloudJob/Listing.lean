import Mathlib.Data.Prod.Lex
import CloudJob.Lib.Keyset
import CloudJob.Lib.Prog
import CloudJob.Db

/-!
# `Listing.lean` — `JobService.list_jobs` and its cache

The listing half of `app/application/services/jobs.py`, the two keyset queries of
`app/repositories/jobs.py` and `app/infrastructure/redis/job_list_cache.py`.

`list_jobs` is a program over five calls: two reads and a write of Redis, the query, and what a
writer adds to them (its commit, and the pipeline of `invalidate_owner`). A Redis value that holds a
page is the JSON document it was made from, and a version key is looked up by the scope it belongs
to. What the program takes from the standard library — dates, uuids, base64, JSON text, SHA-256 — is
a `Codec`. -/

set_option autoImplicit false

namespace CloudJob

open Lib

/-- The standard library, as far as cursors, cached pages and their keys are made with it. `none` is
an exception. -/
structure Codec where
  isoformat : Datetime → String
  fromisoformat : String → Option Datetime
  /-- `str(uuid)`. -/
  strUuid : Uuid → String
  /-- `UUID(text)`. -/
  parseUuid : String → Option Uuid
  /-- `base64.urlsafe_b64encode(text.encode("utf-8")).decode("ascii")`. -/
  urlsafeB64encode : String → String
  /-- `base64.urlsafe_b64decode(text.encode("ascii"))`. -/
  urlsafeB64decode : String → Option String
  /-- `json.loads`. -/
  loads : String → Option Json
  /-- `hashlib.sha256(text.encode("utf-8")).hexdigest()`. -/
  sha256 : String → String

structure JobListCursor where
  createdAt : Datetime
  jobId : Uuid
deriving DecidableEq, Repr

structure JobListPageDTO where
  items : List JobPublicDTO
  nextCursor : Option String

inductive ListExc where
  | invalidCursor
  | indexError
  | keyError
  | redis (text : String)
deriving DecidableEq, Repr

def DEFAULT_LIST_LIMIT : Nat := 20

def MAX_LIST_LIMIT : Int := 100

/-- `_normalize_limit`. -/
def normalizeLimit : Option Int → Nat
  | none => DEFAULT_LIST_LIMIT
  | some limit => (max 1 (min limit MAX_LIST_LIMIT)).toNat

/-! ## The queries -/

/-- `_keyset_clause`. -/
def keysetClause (cursor : JobListCursor) (job : Job) : Bool :=
  decide (job.createdAt < cursor.createdAt) ||
    (job.createdAt == cursor.createdAt && decide (job.id < cursor.jobId))

/-- `ORDER BY created_at DESC, id DESC`. -/
def listOrder (a b : Job) : Prop :=
  b.createdAt < a.createdAt ∨ (b.createdAt = a.createdAt ∧ b.id ≤ a.id)

instance : DecidableRel listOrder := fun a b =>
  inferInstanceAs (Decidable (b.createdAt < a.createdAt ∨
    (b.createdAt = a.createdAt ∧ b.id ≤ a.id)))

/-- `SELECT … WHERE guard [AND keyset clause] ORDER BY … LIMIT limit`. -/
def listKeyset (guard : Job → Bool) (db : Db) (cursor : Option JobListCursor) (limit : Nat) :
    List StoredJobDTO :=
  (((db.jobs.rows.filter guard).filter fun job => cursor.all fun c =>
    keysetClause c job).insertionSort
    listOrder).take limit |>.map toStoredJobDto

def listForOwnerKeyset (db : Db) (ownerId : Uuid) (cursor : Option JobListCursor) (limit : Nat) :
    List StoredJobDTO :=
  listKeyset (fun job => job.ownerId == ownerId) db cursor limit

def listAllKeyset (db : Db) (cursor : Option JobListCursor) (limit : Nat) : List StoredJobDTO :=
  listKeyset (fun _ => true) db cursor limit

/-! ## Cursors -/

section Cursor

variable (C : Codec)

/-- The document of `_encode_cursor`. -/
def cursorDocument (cursor : JobListCursor) : Json :=
  .obj [("v", .int 1), ("created_at", .str (C.isoformat cursor.createdAt)),
    ("id", .str (C.strUuid cursor.jobId))]

/-- `_encode_cursor`. -/
def encodeCursor (cursor : JobListCursor) : String :=
  C.urlsafeB64encode (cursorDocument C cursor).dumps

/-- `value == 1`, which in Python holds of `True` and `1.0` too. -/
def Json.isOne : Json → Bool
  | .int n => n == 1
  | .bool b => b
  | .float text => text == "1.0"
  | _ => false

/-- `set(decoded) == {"v", "created_at", "id"}`. -/
def hasCursorShape (members : List (String × Json)) : Bool :=
  members.all (fun m => m.1 ∈ ["v", "created_at", "id"]) &&
    ["v", "created_at", "id"].all fun key => key ∈ members.map Prod.fst

/-- The part of `_decode_cursor` after `json.loads`. -/
def cursorOfDocument : Json → Option JobListCursor
  | .obj members =>
      if !hasCursorShape members then none
      else if !(((Json.obj members).get? "v").any Json.isOne) then none
      else match (Json.obj members).get? "created_at", (Json.obj members).get? "id" with
        | some (.str createdAt), some (.str id) =>
            (C.fromisoformat createdAt).bind fun createdAt =>
              (C.parseUuid id).map fun id => ⟨createdAt, id⟩
        | _, _ => none
  | _ => none

/-- `_decode_cursor`: whatever goes wrong is an invalid cursor. -/
def decodeCursor (cursor : String) : Except ListExc JobListCursor :=
  match ((C.urlsafeB64decode cursor).bind C.loads).bind (cursorOfDocument C) with
  | some cursor => .ok cursor
  | none => .error .invalidCursor

/-- `_build_job_list_page`; `page_jobs[-1]` raises on an empty list. -/
def buildJobListPage (jobs : List StoredJobDTO) (limit : Nat) : Except ListExc JobListPageDTO :=
  let pageJobs := jobs.take limit
  if limit < jobs.length then
    match pageJobs.getLast? with
    | some lastJob => .ok ⟨pageJobs.map toJobPublicDto,
        some (encodeCursor C ⟨lastJob.createdAt, lastJob.id⟩)⟩
    | none => .error .indexError
  else .ok ⟨pageJobs.map toJobPublicDto, none⟩

end Cursor

/-! ## The calls -/

/-- `owner_id=None if current_user.role is UserRole.ADMIN else current_user.id`. -/
def CurrentUserDTO.scope (user : CurrentUserDTO) : Option Uuid :=
  if user.role = .admin then none else some user.id

inductive ListOp where
  | getVersion (ownerId : Option Uuid)
  | getPage (key : String)
  | setPage (key : String) (page : Json)
  | query (ownerId : Option Uuid) (cursor : Option JobListCursor) (limit : Nat)
  | commit (stmts : List Stmt)
  | incrVersions (ownerId : Uuid)

@[reducible] def ListOp.Ret : ListOp → Type
  | .getVersion _ => Nat
  | .getPage _ => Option Json
  | .query _ _ _ => List StoredJobDTO
  | _ => Unit

@[reducible] def listSig : Sig := ⟨ListOp, ListOp.Ret, ListExc⟩

abbrev ListCode (α : Type) := Prog listSig α

def listCall (o : ListOp) : ListCode o.Ret := Prog.perform (S := listSig) o

/-! ## `RedisJobListCache` -/

/-- `JobListCache`. -/
structure JobListCache where
  getPage : Option Uuid → Option String → Nat → ListCode (Option JobListPageDTO)
  setPage : Option Uuid → Option String → Nat → JobListPageDTO → ListCode Unit

def noOpJobListCache : JobListCache where
  getPage _ _ _ := .ret none
  setPage _ _ _ _ := .ret ()

namespace RedisJobListCache

variable (C : Codec)

/-- `_cache_key`. -/
def cacheKey (ownerId : Option Uuid) (version : Nat) (cursor : Option String)
    (limit : Nat) : String :=
  let cursorHash := C.sha256 (cursor.getD "")
  match ownerId with
  | none => s!"jobs:list:admin:v:{version}:cursor:{cursorHash}:limit:{limit}"
  | some ownerId =>
      let owner := C.strUuid ownerId
      s!"jobs:list:user:{owner}:v:{version}:cursor:{cursorHash}:limit:{limit}"

def encodeItem (item : JobPublicDTO) : Json :=
  .obj [("id", .str (C.strUuid item.id)), ("owner_id", .str (C.strUuid item.ownerId)),
    ("type", .str item.type.value), ("payload", item.payload), ("status", .str item.status.value),
    ("idempotency_key", .str item.idempotencyKey),
    ("created_at", .str (C.isoformat item.createdAt)),
    ("updated_at", .str (C.isoformat item.updatedAt)),
    ("cancel_requested_at", match item.cancelRequestedAt with
      | some t => .str (C.isoformat t)
      | none => .null)]

/-- `_encode_page`. -/
def encodePage (page : JobListPageDTO) : Json :=
  .obj [("items", .arr (page.items.map (encodeItem C))),
    ("next_cursor", match page.nextCursor with
      | some cursor => .str cursor
      | none => .null)]

/-- `JobType(value)`. -/
def typeOfValue (value : String) : Option JobType :=
  [JobType.sleep, .success, .failure].find? fun t => t.value == value

/-- `JobStatus(value)`. -/
def statusOfValue (value : String) : Option JobStatus :=
  [JobStatus.pending, .queued, .running, .completed, .failed, .cancelled].find? fun s =>
    s.value == value

/-- `item[key]`, where a text is wanted. -/
def textAt (item : Json) (key : String) : Option String :=
  match item.get? key with
  | some (.str text) => some text
  | _ => none

/-- One item of `_decode_page`; the attempt count is not in the document and gets its default. -/
def decodeItem (item : Json) : Option JobPublicDTO := do
  let id ← C.parseUuid (← textAt item "id")
  let ownerId ← C.parseUuid (← textAt item "owner_id")
  let type ← typeOfValue (← textAt item "type")
  let payload ← item.get? "payload"
  let status ← statusOfValue (← textAt item "status")
  let idempotencyKey ← textAt item "idempotency_key"
  let createdAt ← C.fromisoformat (← textAt item "created_at")
  let updatedAt ← C.fromisoformat (← textAt item "updated_at")
  let cancelRequestedAt ← match item.get? "cancel_requested_at" with
    | some .null => some none
    | some (.str text) => (C.fromisoformat text).map some
    | _ => none
  return ⟨id, ownerId, type, payload, status, idempotencyKey, createdAt, updatedAt,
    cancelRequestedAt, 0⟩

/-- `_decode_page`. -/
def decodePage (page : Json) : Option JobListPageDTO := do
  let items ← match page.get? "items" with
    | some (.arr items) => items.mapM (decodeItem C)
    | _ => none
  let nextCursor ← match page.get? "next_cursor" with
    | some .null => some none
    | some (.str cursor) => some (some cursor)
    | _ => none
  return ⟨items, nextCursor⟩

/-- `get_page`. What Redis raises is logged and answers `None`; what decoding raises is not
caught. -/
def getPage (ownerId : Option Uuid) (cursor : Option String) (limit : Nat) :
    ListCode (Option JobListPageDTO) := do
  let payload ← Prog.tryCatch
    (do
      let version ← listCall (.getVersion ownerId)
      listCall (.getPage (cacheKey C ownerId version cursor limit)))
    fun _ => .ret none
  match payload with
  | none => return none
  | some payload =>
      match decodePage C payload with
      | some page => return some page
      | none => .raise .keyError

/-- `set_page`. -/
def setPage (ownerId : Option Uuid) (cursor : Option String) (limit : Nat) (page : JobListPageDTO) :
    ListCode Unit :=
  Prog.tryCatch
    (do
      let version ← listCall (.getVersion ownerId)
      listCall (.setPage (cacheKey C ownerId version cursor limit) (encodePage C page)))
    fun _ => .ret ()

/-- `invalidate_owner`. -/
def invalidateOwner (ownerId : Uuid) : ListCode Unit :=
  Prog.tryCatch (listCall (.incrVersions ownerId)) fun _ => .ret ()

end RedisJobListCache

def redisJobListCache (C : Codec) : JobListCache where
  getPage := RedisJobListCache.getPage C
  setPage := RedisJobListCache.setPage C

/-! ## `list_jobs` -/

/-- `JobService.list_jobs`. -/
def listJobs (C : Codec) (cache : JobListCache) (currentUser : CurrentUserDTO)
    (cursor : Option String) (limit : Option Int) : ListCode JobListPageDTO := do
  let normalizedLimit := normalizeLimit limit
  let cachedPage ← cache.getPage currentUser.scope cursor normalizedLimit
  match cachedPage with
  | some cachedPage => return cachedPage
  | none =>
      let decodedCursor ← match cursor with
        | some cursor => Prog.ofExcept ((decodeCursor C cursor).map some)
        | none => .ret none
      let jobs ← listCall (.query currentUser.scope decodedCursor (normalizedLimit + 1))
      let page ← Prog.ofExcept (buildJobListPage C jobs normalizedLimit)
      cache.setPage currentUser.scope cursor normalizedLimit page
      return page

/-! ## The state behind the calls -/

structure ListState where
  db : Db
  versions : Option Uuid → Nat
  pages : String → Option Json

/-- The rows a scope can see. -/
def runQuery (db : Db) (ownerId : Option Uuid) (cursor : Option JobListCursor) (limit : Nat) :
    List StoredJobDTO :=
  match ownerId with
  | none => listAllKeyset db cursor limit
  | some ownerId => listForOwnerKeyset db ownerId cursor limit

/-- What a call does where Redis and the database do not fail. `INCR` goes to the version of the
owner and to that of the admin, in one transaction. -/
def ListState.exec : (o : ListOp) → ListState → Except ListExc o.Ret × ListState
  | .getVersion ownerId, s => (.ok (s.versions ownerId), s)
  | .getPage key, s => (.ok (s.pages key), s)
  | .setPage key page, s => (.ok (), { s with pages := Function.update s.pages key (some page) })
  | .query ownerId cursor limit, s => (.ok (runQuery s.db ownerId cursor limit), s)
  | .commit stmts, s => (.ok (), { s with db := s.db.applyAll stmts })
  | .incrVersions ownerId, s => (.ok (), { s with
      versions := fun scope =>
        if scope = some ownerId ∨ scope = none then s.versions scope + 1 else s.versions scope })

/-- A request served without anyone else in between. -/
def serve (C : Codec) (cache : JobListCache) (user : CurrentUserDTO) (cursor : Option String)
    (limit : Option Int) (s : ListState) : Except ListExc JobListPageDTO × ListState :=
  (listJobs C cache user cursor limit).eval ListState.exec s

/-- The uncached answer. -/
def listPage (C : Codec) (db : Db) (user : CurrentUserDTO) (cursor : Option String)
    (limit : Option Int) : Except ListExc JobListPageDTO := do
  let decodedCursor ← match cursor with
    | some cursor => (decodeCursor C cursor).map some
    | none => .ok none
  buildJobListPage C (runQuery db user.scope decodedCursor (normalizeLimit limit + 1))
    (normalizeLimit limit)

/-- With the cache off, a request answers with what the database has and leaves everything alone. -/
theorem serve_noOp (C : Codec) (user : CurrentUserDTO) (cursor : Option String) (limit : Option Int)
    (s : ListState) :
    serve C noOpJobListCache user cursor limit s = (listPage C s.db user cursor limit, s) := by
  have hrest : ∀ decoded : Option JobListCursor,
      ((listCall (.query user.scope decoded (normalizeLimit limit + 1))).bind fun jobs =>
        (Prog.ofExcept (buildJobListPage C jobs (normalizeLimit limit))).bind fun page =>
          (Prog.ret () : ListCode Unit).bind fun _ => .ret page).eval ListState.exec s =
      (buildJobListPage C (runQuery s.db user.scope decoded (normalizeLimit limit + 1))
        (normalizeLimit limit), s) := by
    intro decoded
    rw [listCall, Prog.eval_bind, Prog.eval_perform]
    show ((Prog.ofExcept _).bind _).eval _ _ = _
    rw [Prog.eval_bind, Prog.eval_ofExcept]
    cases buildJobListPage C _ _ <;> rfl
  unfold serve listJobs listPage noOpJobListCache
  simp only [Prog.bind_eq, Prog.pure_eq, Prog.ret_bind] at hrest ⊢
  cases cursor with
  | none => exact hrest none
  | some cursor =>
    rw [Prog.eval_bind, Prog.eval_ofExcept]
    dsimp only
    cases decodeCursor C cursor with
    | error e => rfl
    | ok decoded => exact hrest (some decoded)

end CloudJob
