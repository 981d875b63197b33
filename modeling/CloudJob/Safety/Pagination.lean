import CloudJob.Listing

/-!
# `Safety/Pagination.lean` — following `next_cursor`

A client that follows `next_cursor` walks through the rows of its scope by `(created_at, id)`,
greatest first (`Keyset.walk`), while jobs are inserted between its requests. That a cursor comes
back from its text is assumed of the standard library, of the cursors at hand only
(`Codec.RoundTrips`). -/

set_option autoImplicit false

namespace CloudJob

open Lib

/-! ## The rows of a scope and their order -/

/-- The rows a scope sees. -/
def Db.visible (db : Db) (scope : Option Uuid) : List Job :=
  db.jobs.rows.filter fun job => scope.all fun ownerId => job.ownerId == ownerId

/-- `(created_at, id)`. -/
def Job.listKey (job : Job) : Datetime ×ₗ Uuid := toLex (job.createdAt, job.id)

def JobListCursor.listKey (cursor : JobListCursor) : Datetime ×ₗ Uuid :=
  toLex (cursor.createdAt, cursor.jobId)

theorem keysetClause_eq (cursor : JobListCursor) (job : Job) :
    keysetClause cursor job = decide (job.listKey < cursor.listKey) := by
  rw [Bool.eq_iff_iff]
  simp [keysetClause, Job.listKey, JobListCursor.listKey, Prod.Lex.lt_iff]

theorem listOrder_iff (a b : Job) : listOrder a b ↔ b.listKey ≤ a.listKey := by
  simp [listOrder, Job.listKey, Prod.Lex.le_iff]

theorem nodup_listKey (db : Db) (scope : Option Uuid) :
    ((db.visible scope).map Job.listKey).Nodup := by
  have hid : ((db.visible scope).map Job.id).Nodup :=
    db.jobs.distinct.sublist (List.filter_sublist.map Job.id)
  have hmap : (db.visible scope).map Job.id =
      ((db.visible scope).map Job.listKey).map fun k => (ofLex k).2 := by
    rw [List.map_map]
    rfl
  rw [hmap] at hid
  exact hid.of_map

/-- The two queries are one: the first rows of the scope below the cursor. -/
theorem runQuery_eq (db : Db) (scope : Option Uuid) (cursor : Option JobListCursor) (limit : Nat) :
    runQuery db scope cursor limit =
      ((Keyset.below Job.listKey (cursor.map JobListCursor.listKey) (db.visible scope)).take
        limit).map toStoredJobDto := by
  have hkeyset : ∀ guard : Job → Bool, listKeyset guard db cursor limit =
      ((Keyset.below Job.listKey (cursor.map JobListCursor.listKey)
        (db.jobs.rows.filter guard)).take limit).map toStoredJobDto := by
    intro guard
    unfold listKeyset Keyset.below
    have hclause : (fun job => cursor.all fun c => keysetClause c job) = fun job : Job =>
        (cursor.map JobListCursor.listKey).all fun k => decide (job.listKey < k) := by
      funext job
      cases cursor with
      | none => rfl
      | some c => exact keysetClause_eq c job
    have horder : listOrder = fun a b : Job => b.listKey ≤ a.listKey := by
      funext a b
      exact propext (listOrder_iff a b)
    rw [hclause]
    congr! 4
  cases scope with
  | none => exact hkeyset _
  | some ownerId => exact hkeyset _

/-! ## Cursors come back -/

/-- What the standard library promises about one cursor and the texts it is made of: each of the
four encodings is undone by its decoding, JSON up to the order of keys. -/
structure Codec.RoundTrips (C : Codec) (cursor : JobListCursor) : Prop where
  isoformat : C.fromisoformat (C.isoformat cursor.createdAt) = some cursor.createdAt
  uuid : C.parseUuid (C.strUuid cursor.jobId) = some cursor.jobId
  base64 : C.urlsafeB64decode (C.urlsafeB64encode (cursorDocument C cursor).dumps) =
    some (cursorDocument C cursor).dumps
  json : ∃ value, C.loads (cursorDocument C cursor).dumps = some value ∧
    (cursorDocument C cursor).Same value

theorem Json.get?_isSome {members : List (String × Json)} {key : String} :
    ((Json.obj members).get? key).isSome = true ↔ key ∈ members.map Prod.fst := by
  simp only [Json.get?, Option.isSome_map, List.find?_isSome, beq_iff_eq, List.mem_map]

theorem Json.mem_of_get? {members : List (String × Json)} {key : String} {x : Json}
    (h : (Json.obj members).get? key = some x) : (key, x) ∈ members := by
  obtain ⟨m, hm, rfl⟩ := Option.map_eq_some_iff.mp h
  have hkey : m.1 = key := by simpa using List.find?_some hm
  exact hkey ▸ List.mem_of_find?_eq_some hm

/-- A document with the members of a cursor has its shape. -/
theorem hasCursorShape_of_same {xs ys : List (String × Json)}
    (h : ∀ key, ((Json.obj xs).get? key).isSome = ((Json.obj ys).get? key).isSome) :
    hasCursorShape ys = hasCursorShape xs := by
  have hmem : ∀ key, key ∈ xs.map Prod.fst ↔ key ∈ ys.map Prod.fst := fun key => by
    rw [← Json.get?_isSome, ← Json.get?_isSome, h]
  have hall : ∀ zs : List (String × Json), (zs.all fun m => m.1 ∈ ["v", "created_at", "id"]) =
      ((zs.map Prod.fst).all fun key => key ∈ ["v", "created_at", "id"]) := fun zs => by
    rw [List.all_map]
    rfl
  unfold hasCursorShape
  rw [hall xs, hall ys]
  congr 1
  · rw [Bool.eq_iff_iff, List.all_eq_true, List.all_eq_true]
    exact ⟨fun hy key hm => hy key ((hmem key).mp hm), fun hx key hm => hx key ((hmem key).mpr hm)⟩
  · simp only [hmem]

/-- What a document that is the same as a cursor's has for members. -/
theorem cursorDocument_members {createdAt id : String} {value : Json}
    (h : (Json.obj [("v", .int 1), ("created_at", .str createdAt), ("id", .str id)]).Same value) :
    ∃ members, value = .obj members ∧ hasCursorShape members = true ∧
      (Json.obj members).get? "v" = some (.int 1) ∧
      (Json.obj members).get? "created_at" = some (.str createdAt) ∧
      (Json.obj members).get? "id" = some (.str id) := by
  cases h with
  | @obj _ ys hkeys hvalues =>
    have hshape : hasCursorShape ys = true := by
      rw [hasCursorShape_of_same hkeys]
      rfl
    have hmember : ∀ key x, (Json.obj [("v", .int 1), ("created_at", .str createdAt),
      ("id", .str id)]).get? key =
        some x → ∃ y, (Json.obj ys).get? key = some y ∧ x.Same y := by
      intro key x hx
      have hsome := hkeys key
      rw [hx] at hsome
      obtain ⟨y, hy⟩ := Option.isSome_iff_exists.mp hsome.symm
      exact ⟨y, hy, hvalues key x y hx hy⟩
    obtain ⟨v, hv, hv'⟩ := hmember "v" _ rfl
    obtain ⟨createdAt, hc, hc'⟩ := hmember "created_at" _ rfl
    obtain ⟨id, hi, hi'⟩ := hmember "id" _ rfl
    cases hv'
    cases hc'
    cases hi'
    exact ⟨ys, rfl, hshape, hv, hc, hi⟩

theorem decodeCursor_encodeCursor {C : Codec} {cursor : JobListCursor} (h : C.RoundTrips cursor) :
    decodeCursor C (encodeCursor C cursor) = .ok cursor := by
  obtain ⟨value, hloads, hsame⟩ := h.json
  obtain ⟨members, rfl, hshape, hv, hc, hi⟩ := cursorDocument_members hsame
  have hdoc : cursorOfDocument C (.obj members) = some cursor := by
    simp only [cursorOfDocument, hshape, hv, hc, hi, h.isoformat, h.uuid]
    rfl
  unfold decodeCursor encodeCursor
  rw [h.base64, Option.bind_some, hloads, Option.bind_some, hdoc]

/-! ## Databases that grow -/

/-- No job is deleted, and none changes its id, its owner or when it was created. -/
def Db.GrowsTo (db db' : Db) : Prop :=
  ∀ job ∈ db.jobs.rows, ∃ job' ∈ db'.jobs.rows,
    job'.id = job.id ∧ job'.ownerId = job.ownerId ∧ job'.createdAt = job.createdAt

theorem Db.GrowsTo.refl (db : Db) : db.GrowsTo db := fun job hm => ⟨job, hm, rfl, rfl, rfl⟩

theorem Db.GrowsTo.trans {db db' db'' : Db} (h : db.GrowsTo db') (h' : db'.GrowsTo db'') :
    db.GrowsTo db'' := by
  intro job hm
  obtain ⟨job', hm', hid, howner, hcreated⟩ := h job hm
  obtain ⟨job'', hm'', hid', howner', hcreated'⟩ := h' job' hm'
  exact ⟨job'', hm'', hid'.trans hid, howner'.trans howner, hcreated'.trans hcreated⟩

/-- Every statement of the program only ever lets the table grow. -/
theorem Db.growsTo_apply (db : Db) (st : Stmt) : db.GrowsTo (st.apply db) := by
  cases st with
  | insertLog | insertEvent | updateEvent => exact Db.GrowsTo.refl db
  | insertJob job =>
    intro job' hm
    refine ⟨job', ?_, rfl, rfl, rfl⟩
    simp only [Stmt.apply, Table.insert]
    split
    · exact hm
    · exact List.mem_append_left _ hm
  | updateJob id st =>
    intro job hm
    have hidentity : (if job.id = id then st.update.run job else job).identity = job.identity := by
      split
      · exact st.update.run_identity job
      · rfl
    exact ⟨_, List.mem_map_of_mem hm, congrArg JobIdentity.id hidentity,
      congrArg JobIdentity.ownerId hidentity, congrArg JobIdentity.createdAt hidentity⟩

theorem Db.growsTo_applyAll (stmts : List Stmt) : ∀ db : Db, db.GrowsTo (db.applyAll stmts) := by
  induction stmts with
  | nil => exact Db.GrowsTo.refl
  | cons st rest ih => exact fun db => (db.growsTo_apply st).trans (ih _)

theorem Db.GrowsTo.visible {db db' : Db} (h : db.GrowsTo db') (scope : Option Uuid) :
    Keyset.Grows Job.listKey (db.visible scope) (db'.visible scope) := by
  intro k hk
  obtain ⟨job, hm, rfl⟩ := List.mem_map.mp hk
  obtain ⟨hrow, hscope⟩ := List.mem_filter.mp hm
  obtain ⟨job', hrow', hid, howner, hcreated⟩ := h job hrow
  refine List.mem_map.mpr ⟨job', List.mem_filter.mpr ⟨hrow', ?_⟩, ?_⟩
  · rw [howner]
    exact hscope
  · rw [Job.listKey, Job.listKey, hid, hcreated]

/-! ## Following the cursors -/

def Job.listCursor (job : Job) : JobListCursor := ⟨job.createdAt, job.id⟩

/-- The item a row is listed as. -/
def Job.listItem (job : Job) : JobPublicDTO := toJobPublicDto (toStoredJobDto job)

/-- What a client gets that follows `next_cursor`: one request for each of the states it finds,
until a page has no next one. -/
def followCursors (C : Codec) (user : CurrentUserDTO) (limit : Option Int) :
    List ListState → Option String → Except ListExc (List JobListPageDTO)
  | [], _ => .ok []
  | s :: rest, cursor =>
      match (serve C noOpJobListCache user cursor limit s).1 with
      | .error e => .error e
      | .ok page =>
          match page.nextCursor with
          | none => .ok [page]
          | some next => (followCursors C user limit rest (some next)).map (page :: ·)

/-- The last page says that there is no next one. -/
def Ended (pages : List JobListPageDTO) : Prop :=
  ∃ last, pages.getLast? = some last ∧ last.nextCursor = none

theorem one_le_normalizeLimit (limit : Option Int) : 1 ≤ normalizeLimit limit := by
  cases limit with
  | none => decide
  | some limit =>
    have hpos : (1 : Int) ≤ max 1 (min limit MAX_LIST_LIMIT) := le_max_left _ _
    exact (Int.le_toNat (by omega)).mpr hpos

/-- A cursor a client may hold, and the position it stands for. -/
inductive HoldsCursor (C : Codec) : Option String → Option (Datetime ×ₗ Uuid) → Prop where
  | start : HoldsCursor C none none
  | next {cursor : JobListCursor} : C.RoundTrips cursor →
      HoldsCursor C (some (encodeCursor C cursor)) (some cursor.listKey)

/-- One page, in terms of the rows below the position. -/
theorem listPage_of_holdsCursor {C : Codec} {db : Db} {user : CurrentUserDTO} {limit : Option Int}
    {cursor : Option String} {pos : Option (Datetime ×ₗ Uuid)} (h : HoldsCursor C cursor pos) :
    listPage C db user cursor limit =
      buildJobListPage C (((Keyset.below Job.listKey pos (db.visible user.scope)).take
        (normalizeLimit limit + 1)).map toStoredJobDto) (normalizeLimit limit) := by
  cases h with
  | start => exact congrArg (buildJobListPage C · _) (runQuery_eq db user.scope none _)
  | @next cursor hround =>
    unfold listPage
    simp only [decodeCursor_encodeCursor hround]
    exact congrArg (buildJobListPage C · _) (runQuery_eq db user.scope (some cursor) _)

/-- The page a list of rows is made into; there is a last row to make a cursor of. -/
theorem buildJobListPage_eq (C : Codec) (rows : List Job) {limit : Nat} (hl : 1 ≤ limit) :
    buildJobListPage C (rows.map toStoredJobDto) limit = .ok
      { items := (rows.take limit).map Job.listItem
        nextCursor := if limit < rows.length then
            (rows.take limit).getLast?.map fun job => encodeCursor C job.listCursor
          else none } := by
  unfold buildJobListPage
  simp only [List.length_map, ← List.map_take, List.map_map, List.getLast?_map]
  split
  · cases hlast : (rows.take limit).getLast? with
    | some job => rfl
    | none =>
      rw [List.getLast?_eq_none_iff, List.take_eq_nil_iff] at hlast
      rename_i hlt
      rcases hlast with h | h
      · omega
      · rw [h, List.length_nil] at hlt
        omega
  · rfl

/-- Following the cursors is walking through the rows of the scope. -/
theorem followCursors_walk {C : Codec} (user : CurrentUserDTO) (limit : Option Int) :
    ∀ {states : List ListState} {cursor : Option String} {pos : Option (Datetime ×ₗ Uuid)},
    (∀ s ∈ states, ∀ job ∈ s.db.jobs.rows, C.RoundTrips job.listCursor) → HoldsCursor C cursor pos →
    ∃ pages, followCursors C user limit states cursor = .ok pages ∧
      pages.map JobListPageDTO.items = (Keyset.walk Job.listKey (normalizeLimit limit)
        (states.map fun s => s.db.visible user.scope) pos).1.map (List.map Job.listItem) ∧
      (Ended pages ↔ (Keyset.walk Job.listKey (normalizeLimit limit)
        (states.map fun s => s.db.visible user.scope) pos).2 = true)
  | [], _, _, _, _ => ⟨[], rfl, rfl, ⟨fun ⟨_, h, _⟩ => (nomatch h), nofun⟩⟩
  | s :: rest, cursor, pos, hround, hcursor => by
    have hpage := (congrArg Prod.fst (serve_noOp C user cursor limit s)).trans
      ((listPage_of_holdsCursor hcursor).trans
        (buildJobListPage_eq C _ (one_le_normalizeLimit limit)))
    have htake : ((Keyset.below Job.listKey pos (s.db.visible user.scope)).take
        (normalizeLimit limit + 1)).take (normalizeLimit limit) =
        (Keyset.below Job.listKey pos (s.db.visible user.scope)).take (normalizeLimit limit) := by
      rw [List.take_take, Nat.min_eq_left (Nat.le_succ _)]
    rw [htake] at hpage
    simp only [followCursors, hpage, List.map_cons]
    rcases Keyset.page_cases pos (nodup_listKey s.db user.scope) (one_le_normalizeLimit limit) with
      ⟨hlt, -, last, hlast, -, -⟩ | ⟨hlt, -⟩
    · -- there is a next page, and its cursor is that of a row of this state
      have hmem : last ∈ s.db.jobs.rows :=
        List.mem_of_mem_filter (Keyset.mem_below.mp
          (List.mem_of_mem_take (List.mem_of_getLast? hlast))).1
      obtain ⟨pages, hpages, hitems, hended⟩ := followCursors_walk user limit
        (fun s' hs' => hround s' (List.mem_cons_of_mem _ hs'))
        (.next (hround s List.mem_cons_self last hmem))
      simp only [Keyset.walk, if_pos hlt, hlast, htake, Option.map_some, hpages]
      refine ⟨_, rfl, ?_, ?_⟩
      · rw [List.map_cons, List.map_cons, hitems]
        rfl
      · rw [show last.listKey = last.listCursor.listKey from rfl, ← hended]
        cases pages with
        | nil =>
          constructor
          · rintro ⟨last', hlast', hnone⟩
            cases hlast'
            cases hnone
          · rintro ⟨last', hlast', -⟩
            cases hlast'
        | cons page pages =>
          unfold Ended
          rw [List.getLast?_cons_cons]
    · simp only [Keyset.walk, if_neg hlt, htake]
      exact ⟨_, rfl, rfl, ⟨fun _ => trivial, fun _ => ⟨_, rfl, rfl⟩⟩⟩

/-! ## What a client gets -/

section Follow

variable {states : ℕ → ListState}

theorem growsTo_of_le (hgrow : ∀ n, (states n).db.GrowsTo (states (n + 1)).db)
    {m n : ℕ} (h : m ≤ n) : (states m).db.GrowsTo (states n).db := by
  induction h with
  | refl => exact .refl _
  | step _ ih => exact ih.trans (hgrow _)

theorem isChain_visible (hgrow : ∀ n, (states n).db.GrowsTo (states (n + 1)).db)
    (scope : Option Uuid)
    (n : ℕ) : (((List.range n).map states).map fun s => s.db.visible scope).IsChain
      (Keyset.Grows Job.listKey) := by
  rw [List.isChain_iff_getElem]
  intro i hi
  simp only [List.getElem_map, List.getElem_range]
  exact (hgrow i).visible scope

/-- A job that is listed twice is listed with one creation time. -/
theorem createdAt_eq (hgrow : ∀ n, (states n).db.GrowsTo (states (n + 1)).db) {m n : ℕ} {a b : Job}
    (ha : a ∈ (states m).db.jobs.rows) (hb : b ∈ (states n).db.jobs.rows) (hid : a.id = b.id) :
    a.createdAt = b.createdAt := by
  obtain ⟨a', ha', hida, -, hca⟩ := growsTo_of_le hgrow (Nat.le_max_left m n) a ha
  obtain ⟨b', hb', hidb, -, hcb⟩ := growsTo_of_le hgrow (Nat.le_max_right m n) b hb
  have heq : a' = b' := Table.eq_of_key_eq ha' hb' (by rw [hida, hidb, hid])
  rw [← hca, ← hcb, heq]

/-- Following `next_cursor` while jobs are inserted: no request fails, the items come strictly
descending and each at most once, every page but the last is full, a walk that has ended has listed
every job of the scope that was there at first exactly once, and it ends if the table does not grow
for ever. -/
theorem pagination_exact (C : Codec) (states : ℕ → ListState) (user : CurrentUserDTO)
    (limit : Option Int)
    (hround : ∀ n, ∀ job ∈ (states n).db.jobs.rows, C.RoundTrips job.listCursor)
    (hgrow : ∀ n, (states n).db.GrowsTo (states (n + 1)).db) :
    (∀ n, ∃ pages, followCursors C user limit ((List.range n).map states) none = .ok pages ∧
      ((pages.flatMap JobListPageDTO.items).Pairwise fun a b =>
        toLex (b.createdAt, b.id) < toLex (a.createdAt, a.id)) ∧
      ((pages.flatMap JobListPageDTO.items).map JobPublicDTO.id).Nodup ∧
      (∀ item ∈ pages.flatMap JobListPageDTO.items, ∃ m < n,
        ∃ job ∈ (states m).db.visible user.scope,
        item = job.listItem) ∧
      (∀ page ∈ pages.dropLast, page.items.length = normalizeLimit limit) ∧
      (Ended pages → ∀ job ∈ (states 0).db.visible user.scope,
        ((pages.flatMap JobListPageDTO.items).map JobPublicDTO.id).count job.id = 1)) ∧
    ((∃ N, ∀ n, ((states n).db.visible user.scope).length ≤ N) →
      ∃ n pages, followCursors C user limit ((List.range n).map states) none = .ok pages ∧
        Ended pages) := by
  have hl := one_le_normalizeLimit limit
  have hstates : ∀ n, ∀ s ∈ (List.range n).map states, ∀ job ∈ s.db.jobs.rows,
      C.RoundTrips job.listCursor := by
    intro n s hs
    obtain ⟨m, -, rfl⟩ := List.mem_map.mp hs
    exact hround m
  have hkeys : ∀ n, ∀ rows ∈ ((List.range n).map states).map (fun s => s.db.visible user.scope),
      (rows.map Job.listKey).Nodup := by
    intro n rows hm
    obtain ⟨s, -, rfl⟩ := List.mem_map.mp hm
    exact nodup_listKey s.db user.scope
  constructor
  · intro n
    obtain ⟨pages, hpages, hitems, hended⟩ := followCursors_walk user limit
      (hstates n) (.start (C := C))
    obtain ⟨found, hfound⟩ : ∃ found, found = (Keyset.walk Job.listKey (normalizeLimit limit)
      (((List.range n).map states).map fun s => s.db.visible user.scope) none).1 := ⟨_, rfl⟩
    have hflat : pages.flatMap JobListPageDTO.items = found.flatten.map Job.listItem := by
      rw [List.flatMap_def, hitems, List.map_flatten, hfound]
    have hsound : ∀ job ∈ found.flatten, ∃ m < n, job ∈ (states m).db.visible user.scope := by
      intro job hm
      rw [hfound] at hm
      obtain ⟨rows, hrows, hjob⟩ := Keyset.walk_sound hl (hkeys n) job hm
      simp only [List.map_map, List.mem_map, List.mem_range] at hrows
      obtain ⟨m, hlt, rfl⟩ := hrows
      exact ⟨m, hlt, hjob⟩
    have hdesc : found.flatten.Pairwise fun a b => b.listKey < a.listKey :=
      hfound ▸ (Keyset.walk_descending hl none (hkeys n)).1
    have hnodup : ((pages.flatMap JobListPageDTO.items).map JobPublicDTO.id).Nodup := by
      rw [hflat, List.map_map]
      refine List.pairwise_map.mpr (hdesc.imp_of_mem fun {a b} ha hb hlt hid => ?_)
      obtain ⟨m, -, ha⟩ := hsound a ha
      obtain ⟨m', -, hb⟩ := hsound b hb
      have hcreated := createdAt_eq hgrow (List.mem_of_mem_filter ha)
        (List.mem_of_mem_filter hb) hid
      exact hlt.ne (congrArg toLex (Prod.ext hcreated.symm (Eq.symm hid)))
    refine ⟨pages, hpages, ?_, hnodup, fun item hm => ?_, fun page hm =>
      ?_, fun hend job hjob => ?_⟩
    · rw [hflat]
      exact List.pairwise_map.mpr hdesc
    · rw [hflat] at hm
      obtain ⟨job, hjob, rfl⟩ := List.mem_map.mp hm
      obtain ⟨m, hlt, hjob⟩ := hsound job hjob
      exact ⟨m, hlt, job, hjob, rfl⟩
    · have hm' : page.items ∈ (found.map (List.map Job.listItem)).dropLast := by
        rw [hfound, ← hitems, ← List.map_dropLast]
        exact List.mem_map_of_mem hm
      rw [← List.map_dropLast] at hm'
      obtain ⟨rows, hrows, heq⟩ := List.mem_map.mp hm'
      rw [← heq, List.length_map]
      exact (Keyset.walk_full hl none (hkeys n)).1 rows (hfound ▸ hrows)
    · refine List.count_eq_one_of_mem hnodup ?_
      have hstart : (0 : ℕ) < n := by
        rcases Nat.eq_zero_or_pos n with rfl | hpos
        · obtain ⟨last, hlast, -⟩ := hend
          cases hpages
          cases hlast
        · exact hpos
      obtain ⟨k, rfl⟩ : ∃ k, n = k + 1 := ⟨n - 1, by omega⟩
      have hchain := isChain_visible hgrow user.scope (k + 1)
      have hclosed := hended.mp hend
      have hkeys' := hkeys (k + 1)
      rw [List.range_succ_eq_map, List.map_cons, List.map_cons] at hchain hclosed hkeys' hfound
      obtain ⟨b, hb, hkey⟩ := Keyset.walk_complete hl hkeys' hchain hclosed job hjob nofun
      rw [hflat, List.map_map, List.mem_map]
      exact ⟨b, hfound ▸ hb, congrArg (fun k => (ofLex k).2) hkey⟩
  · rintro ⟨N, hN⟩
    obtain ⟨pages, hpages, -, hended⟩ := followCursors_walk user limit
      (hstates (N + 1)) (.start (C := C))
    refine ⟨N + 1, pages, hpages, hended.mpr ?_⟩
    have hlast : (((List.range (N + 1)).map states).map fun s => s.db.visible user.scope).getLast? =
        some ((states N).db.visible user.scope) := by
      rw [List.range_succ]
      simp
    refine Keyset.walk_ends hl none (hkeys (N + 1)) (isChain_visible hgrow user.scope (N + 1)) hlast
      ?_
    simpa using Nat.lt_succ_of_le (hN N)

/-! ### Two jobs made at the same time, and a third one between the pages -/

/-- The cursor of job `id`, for the jobs 1, 2 and 3 made a second after the epoch: its id as text,
its document, the text of that, and what base64 makes of it. -/
def sampleUuid (id : Uuid) : String := "00000000-0000-0000-0000-00000000000" ++ toString id

def sampleDocument (id : Uuid) : Json :=
  .obj [("created_at", .str "1970-01-01T00:00:01+00:00"), ("id", .str (sampleUuid id)),
    ("v", .int 1)]

def sampleText (id : Uuid) : String :=
  "\x7b\"created_at\":\"1970-01-01T00:00:01+00:00\",\"id\":\"" ++ sampleUuid id ++ "\",\"v\":1\x7d"

def sampleBase64 (id : Uuid) : String :=
  "eyJjcmVhdGVkX2F0IjoiMTk3MC0wMS0wMVQwMDowMDowMSswMDowMCIsImlkIjoiMDAwMDAwMDAtMDAwMC0wMDAwLTAwMDAtMDAwMDAwMDAwMDA"
    ++ ["w", "x", "y", "z"].getD id "w" ++ "IiwidiI6MX0="

/-- The library on these cursors, on owner 7 and on the empty text. -/
def sampleCodec : Codec where
  isoformat _ := "1970-01-01T00:00:01+00:00"
  fromisoformat text := if text = "1970-01-01T00:00:01+00:00" then some (seconds 1) else none
  strUuid := sampleUuid
  parseUuid text := [1, 2, 3, 7].find? fun id => text = sampleUuid id
  urlsafeB64encode text := (([1, 2, 3].find? fun id => text = sampleText id).map sampleBase64).getD
    ""
  urlsafeB64decode text :=
    if text = "" then some "" else ([1, 2, 3].find? fun id => text = sampleBase64 id).map sampleText
  loads text := ([1, 2, 3].find? fun id => text = sampleText id).map sampleDocument
  sha256 text :=
    if text = "" then "e3b0c44298fc1c149afbf4c8996fb92427ae41e4649b934ca495991b7852b855" else text

def sampleDb : Db := Db.empty.applyAll [.insertJob (sampleJob 1), .insertJob (sampleJob 2)]

/-- Jobs 1 and 2 at the first request, job 3 from the second on. -/
def sampleStates : ℕ → ListState
  | 0 => ⟨sampleDb, fun _ => 0, fun _ => none⟩
  | _ + 1 => ⟨sampleDb.applyAll [.insertJob (sampleJob 3)], fun _ => 0, fun _ => none⟩

theorem sampleDocument_same (id : Uuid) :
    (cursorDocument sampleCodec (sampleJob id).listCursor).Same (sampleDocument id) := by
  refine .obj (fun key => ?_) fun key x y hx hy => ?_
  · rw [Bool.eq_iff_iff, Json.get?_isSome, Json.get?_isSome]
    simp only [List.map_cons, List.map_nil, List.mem_cons]
    tauto
  · have hx' := Json.mem_of_get? hx
    have hy' := Json.mem_of_get? hy
    simp only [List.mem_cons, Prod.mk.injEq, List.not_mem_nil, or_false] at hx' hy'
    rcases hx' with ⟨rfl, rfl⟩ | ⟨rfl, rfl⟩ | ⟨rfl, rfl⟩ <;>
      rcases hy' with ⟨h, rfl⟩ | ⟨h, rfl⟩ | ⟨h, rfl⟩ <;>
      first | exact .int _ | exact .str _ | exact absurd h (by decide)

theorem sampleCodec_roundTrips {id : Uuid} (h : id ∈ [1, 2, 3]) :
    sampleCodec.RoundTrips (sampleJob id).listCursor := by
  have htext : (cursorDocument sampleCodec (sampleJob id).listCursor).dumps = sampleText id ∧
      [1, 2, 3].find? (fun i => sampleText id = sampleText i) = some id := by
    revert id
    decide +kernel
  have hbase64 : sampleBase64 id ≠ "" ∧
      [1, 2, 3].find? (fun i => sampleBase64 id = sampleBase64 i) = some id := by
    revert id
    decide +kernel
  refine ⟨rfl, ?_, ?_, sampleDocument id, ?_, sampleDocument_same id⟩
  · revert id
    decide +kernel
  · rw [htext.1]
    simp only [sampleCodec, htext.2, Option.map_some, Option.getD_some, if_neg hbase64.1, hbase64.2]
  · rw [htext.1]
    simp only [sampleCodec, htext.2, Option.map_some]

theorem sampleStates_rows (n : ℕ) : ∀ job ∈ (sampleStates n).db.jobs.rows,
    ∃ id ∈ [1, 2, 3], job = sampleJob id := by
  have hrows : (sampleStates n).db.jobs.rows ⊆ [1, 2, 3].map sampleJob := by
    cases n with
    | zero => exact List.subset_append_left [sampleJob 1, sampleJob 2] [sampleJob 3]
    | succ n => exact List.Subset.refl [sampleJob 1, sampleJob 2, sampleJob 3]
  intro job hm
  obtain ⟨id, hid, rfl⟩ := List.mem_map.mp (hrows hm)
  exact ⟨id, hid, rfl⟩

/-- The walk of user 7 with a limit of one ends. -/
theorem pagination_exact_sample :
    ∃ n pages, followCursors sampleCodec ⟨7, .user⟩ (some 1)
    ((List.range n).map sampleStates) none =
      .ok pages ∧ Ended pages := by
  refine (pagination_exact sampleCodec sampleStates ⟨7, .user⟩ (some 1)
    (fun n job hm => ?_) fun n => ?_).2 ⟨3, fun n => ?_⟩
  · obtain ⟨id, hid, rfl⟩ := sampleStates_rows n job hm
    exact sampleCodec_roundTrips hid
  · cases n with
    | zero => exact sampleDb.growsTo_applyAll _
    | succ n => exact .refl _
  · cases n with
    | zero => decide
    | succ n =>
      show ((sampleStates 1).db.visible _).length ≤ 3
      decide

end Follow

end CloudJob
