import CloudJob.Lifecycle.Batch

/-!
# `Lifecycle/Keys.lean` — one job for each idempotency key

A pair `(owner_id, idempotency_key)` has at most one row, and at most one insert of it was ever
committed: the two counts are equal, and the guard of `create` starts from zero. An outbox event,
too, is inserted once. -/

set_option autoImplicit false

namespace CloudJob

open Lib

variable {P : Params} {c c' : Core}

def Job.hasKey (owner : Uuid) (key : String) (row : Job) : Bool :=
  row.ownerId == owner && row.idempotencyKey == key

/-- How many rows a pair has. -/
def Core.keyRows (c : Core) (owner : Uuid) (key : String) :
    Nat := c.db.jobs.count (Job.hasKey owner key)

/-- Who inserted a row of the pair, if this statement did. -/
def Stmt.insertsKey (owner : Uuid) (key : String) : Stmt → Bool
  | .insertJob job => job.hasKey owner key
  | _ => false

def Entry.insertsKey (owner : Uuid) (key : String) (en : Entry) : Bool :=
  match en.event with
  | .stmt st => st.insertsKey owner key
  | _ => false

/-- The committed inserts of a pair. -/
def Core.insertions (c : Core) (owner : Uuid) (key : String) : List Entry :=
  c.history.filter (Entry.insertsKey owner key)

theorem Core.insertions_commit (c : Core) (p : Pid) (l : List Stmt) (owner : Uuid) (key : String) :
    ((c.commit p l).insertions owner key).length =
      l.countP (Stmt.insertsKey owner key) + (c.insertions owner key).length := by
  have hrev : ∀ l : List Stmt, ((((l.map Event.stmt).map (Entry.mk p c.clock)).reverse).filter
      (Entry.insertsKey owner key)).length = l.countP (Stmt.insertsKey owner key) := by
    intro l
    rw [← List.countP_eq_length_filter, List.countP_reverse, List.countP_map, List.countP_map]
    rfl
  simp only [Core.insertions, Core.commit, List.filter_append, List.length_append, hrev]

theorem hasKey_of_identity {row row' : Job} (h : row'.identity = row.identity) (owner : Uuid)
    (key : String) : row'.hasKey owner key = row.hasKey owner key := by
  have ho : row'.ownerId = row.ownerId := congrArg JobIdentity.ownerId h
  have hk : row'.idempotencyKey = row.idempotencyKey := congrArg JobIdentity.idempotencyKey h
  simp [Job.hasKey, ho, hk]

/-- Only `create` inserts a job. -/
theorem Action.inserts_cases {l : List Stmt} (h : Action P c l) :
    (∀ owner key, l.countP (Stmt.insertsKey owner key) = 0) ∨
    ∃ job rest, l = .insertJob job :: rest ∧ c.db.job job.id = none ∧
      c.db.jobByKey job.ownerId job.idempotencyKey = none ∧
      (∀ db : Db, (db.applyAll rest).jobs = db.jobs) ∧
      ∀ owner key, rest.countP (Stmt.insertsKey owner key) = 0 := by
  have hev : ∀ {j : Uuid} {at' : Datetime} {ev : List Stmt}, Redispatch c j at' ev →
      ∀ owner key, ev.countP (Stmt.insertsKey owner key) = 0 := by
    intro j at' ev h owner key
    cases h <;> rfl
  cases h with
  | create hkey _ hid _ _ _ =>
    exact .inr ⟨_, _, rfl, hid, hkey, fun _ => rfl, fun _ _ => rfl⟩
  | close h =>
    refine .inl fun owner key => ?_
    cases h with
    | retried _ _ _ _ he => simp [List.countP_append, hev he, Stmt.insertsKey]
    | staleRequeued _ _ _ _ he => simp [List.countP_append, hev he, Stmt.insertsKey]
    | _ => rfl
  | _ => exact .inl fun _ _ => rfl

theorem keyRows_of_none {owner : Uuid} {key : String} (h : c.db.jobByKey owner key = none) :
    c.keyRows owner key = 0 := by
  refine List.countP_eq_zero.mpr fun row hrow hkey => ?_
  simp only [Job.hasKey, Bool.and_eq_true, beq_iff_eq] at hkey
  exact Db.jobByKey_eq_none.mp h row.id row (Table.find?_of_mem hrow) hkey

theorem keyRows_applyAll {owner : Uuid} {key : String} : ∀ {l : List Stmt} {db : Db},
    l.countP (Stmt.insertsKey owner key) = 0 →
    (db.applyAll l).jobs.count (Job.hasKey owner key) = db.jobs.count (Job.hasKey owner key)
  | [], _, _ => rfl
  | st :: l, db, h => by
    rw [List.countP_cons, Nat.add_eq_zero_iff] at h
    rw [Db.applyAll_cons, keyRows_applyAll h.1]
    cases st with
    | insertJob job =>
      refine Table.count_insert_of_false (Bool.eq_false_iff.mpr fun hk => ?_)
      have hone := h.2
      rw [if_pos (by exact hk)] at hone
      cases hone
    | updateJob id st =>
      exact Table.count_modify_of_keeps st.update.run_id fun row =>
        hasKey_of_identity (st.update.run_identity row) owner key
    | insertLog => rfl
    | insertEvent => rfl
    | updateEvent => rfl

/-- **One row, one insert.** -/
theorem Lawful.keys (h : Lawful P c) : ∀ owner key,
    (c.insertions owner key).length = c.keyRows owner key ∧ c.keyRows owner key ≤ 1 := by
  induction h with
  | init => intro owner key; exact ⟨rfl, Nat.zero_le 1⟩
  | @step c c' _ hstep ih =>
    intro owner key
    obtain ⟨heq, hle⟩ := ih owner key
    -- a step that inserts no job
    have hsame : (c'.insertions owner key).length = (c.insertions owner key).length →
        c'.keyRows owner key = c.keyRows owner key →
        (c'.insertions owner key).length = c'.keyRows owner key ∧ c'.keyRows owner key ≤ 1 := by
      intro hins hrows
      rw [hrows, hins]
      exact ⟨heq, hle⟩
    cases hstep with
    | @act p l ha =>
      rcases ha.inserts_cases with hno | ⟨job, rest, rfl, hid, hkey, hjobs, hrest⟩
      · refine hsame ?_ (keyRows_applyAll (hno owner key))
        rw [Core.insertions_commit, hno, Nat.zero_add]
      · have hrows : (c.commit p (.insertJob job :: rest)).keyRows owner key =
            c.keyRows owner key + (job.hasKey owner key).toNat := by
          rw [Core.keyRows, Core.commit_db, Db.applyAll_cons, hjobs]
          exact Table.count_insert hid _
        rw [Core.insertions_commit, List.countP_cons, hrest, hrows, heq]
        cases hk : job.hasKey owner key with
        | false => simp [Stmt.insertsKey, hk, hle]
        | true =>
          have hzero : c.keyRows owner key = 0 := by
            simp only [Job.hasKey, Bool.and_eq_true, beq_iff_eq] at hk
            rw [← hk.1, ← hk.2]
            exact keyRows_of_none hkey
          simp [Stmt.insertsKey, hk, hzero]
    | spend => exact hsame rfl rfl
    | send => exact hsame rfl rfl
    | drop => exact hsame rfl rfl
    | start => exact hsame rfl rfl
    | note p h =>
      obtain ⟨o, rfl⟩ | ⟨n, rfl⟩ := h
      · exact hsame rfl rfl
      · exact hsame rfl rfl
    | env h =>
      obtain ⟨hj, -, hh, -⟩ := Core.env_cases h
      exact hsame (by rw [Core.insertions, hh]; rfl) (by rw [Core.keyRows, hj]; rfl)

/-- A pair determines its job. -/
theorem Lawful.job_of_key (h : Lawful P c) {k k' : Uuid} {row row' : Job}
    (hk : c.db.job k = some row) (hk' : c.db.job k' = some row')
    (ho : row.ownerId = row'.ownerId) (hi : row.idempotencyKey = row'.idempotencyKey) :
    row = row' := by
  have hle := (h.keys row.ownerId row.idempotencyKey).2
  have hkey : row.hasKey row.ownerId row.idempotencyKey = true := by simp [Job.hasKey]
  have hkey' : row'.hasKey row.ownerId row.idempotencyKey = true := by simp [Job.hasKey, ho, hi]
  rw [Core.keyRows, Table.count, List.countP_eq_length_filter] at hle
  have hm := List.mem_filter.mpr ⟨Table.mem_of_find? hk, hkey⟩
  have hm' := List.mem_filter.mpr ⟨Table.mem_of_find? hk', hkey'⟩
  generalize c.db.jobs.rows.filter (Job.hasKey row.ownerId row.idempotencyKey) = rows at hle hm hm'
  obtain ⟨a, ha⟩ : ∃ a, rows = [a] :=
    List.length_eq_one_iff.mp (Nat.le_antisymm hle (List.length_pos_of_mem hm))
  rw [ha, List.mem_singleton] at hm hm'
  rw [hm, hm']

/-- A pair was inserted once. -/
theorem Lawful.inserted_once (h : Lawful P c) {owner : Uuid} {key : String} {en en' : Entry}
    (hm : en ∈ c.insertions owner key) (hm' : en' ∈ c.insertions owner key) : en = en' := by
  have hle : (c.insertions owner key).length ≤ 1 := by
    rw [(h.keys owner key).1]
    exact (h.keys owner key).2
  match hf : c.insertions owner key with
  | [] => rw [hf] at hm; cases hm
  | [a] =>
    rw [hf, List.mem_singleton] at hm hm'
    rw [hm, hm']
  | _ :: _ :: _ => rw [hf] at hle; simp at hle

/-- Every event that was inserted is there, and was inserted once. -/
structure Core.EventsOnce (c : Core) : Prop where
  there : ∀ en ∈ c.history, ∀ ev : OutboxEvent, en.event = .stmt (.insertEvent ev) →
    c.db.event ev.id ≠ none
  once : ∀ en ∈ c.history, ∀ en' ∈ c.history, ∀ ev ev' : OutboxEvent,
    en.event = .stmt (.insertEvent ev) → en'.event = .stmt (.insertEvent ev') →
    ev.id = ev'.id → en = en'

theorem Lawful.eventsOnce (h : Lawful P c) : c.EventsOnce := by
  induction h with
  | init => exact ⟨fun _ hen => absurd hen List.not_mem_nil, fun _ hen =>
      absurd hen List.not_mem_nil⟩
  | @step c c' _ hstep ih =>
    obtain ⟨hthere, honce⟩ := ih
    have hquiet : ∀ {l : List Entry}, c'.history = l ++ c.history → c'.db.outbox = c.db.outbox →
        (∀ en ∈ l, ∀ st, en.event ≠ .stmt st) → c'.EventsOnce := by
      intro l hh hout hno
      have hold : ∀ en ∈ c'.history, ∀ ev : OutboxEvent, en.event = .stmt (.insertEvent ev) →
          en ∈ c.history := by
        intro en hen ev hev
        rw [hh] at hen
        exact (List.mem_append.mp hen).resolve_left fun hl => hno en hl _ hev
      exact ⟨fun en hen ev hev => by rw [Db.event, hout]; exact hthere en (hold en hen ev hev) ev hev,
        fun en hen en' hen' ev ev' hev hev' =>
        honce en (hold en hen ev hev) en' (hold en' hen' ev' hev')
          ev ev' hev hev'⟩
    have hsame : c'.history = c.history → c'.db.outbox = c.db.outbox → c'.EventsOnce :=
        fun hh hout =>
      hquiet (l := []) hh hout fun _ hen => absurd hen List.not_mem_nil
    cases hstep with
    | @act p l ha =>
      -- an entry of the commit is one of its statements, an older one is about another event
      have hcases : ∀ en ∈ (c.commit p l).history, ∀ ev : OutboxEvent,
          en.event = .stmt (.insertEvent ev) →
          (en = ⟨p, c.clock, .stmt (.insertEvent ev)⟩ ∧ .insertEvent ev ∈ l) ∨ en ∈ c.history := by
        intro en hen ev hev
        rcases List.mem_append.mp hen with hen | hen
        · rw [List.mem_reverse, List.map_map] at hen
          obtain ⟨st, hst, rfl⟩ := List.mem_map.mp hen
          cases hev
          exact .inl ⟨rfl, hst⟩
        · exact .inr hen
      refine ⟨fun en hen ev hev => ?_, fun en hen en' hen' ev ev' hev hev' hid => ?_⟩
      · rcases hcases en hen ev hev with ⟨-, hm⟩ | hen
        · exact event_applyAll_inserted hm
        · obtain ⟨row, hrow⟩ := Option.ne_none_iff_exists'.mp (hthere en hen ev hev)
          obtain ⟨row', hrow', -⟩ := event_applyAll_stays (l := l) hrow
          rw [Core.commit_db, hrow']
          exact Option.some_ne_none _
      · rcases hcases en hen ev hev with ⟨rfl, hm⟩ | hen
        · rcases hcases en' hen' ev' hev' with ⟨rfl, hm'⟩ | hen'
          · rw [(ha.insert_mem hm).2.2 ev' hm']
          · exact absurd (ha.insert_mem hm).1 (hid ▸ hthere en' hen' ev' hev')
        · rcases hcases en' hen' ev' hev' with ⟨rfl, hm'⟩ | hen'
          · exact absurd (ha.insert_mem hm').1 (hid ▸ hthere en hen ev hev)
          · exact honce en hen en' hen' ev ev' hev hev' hid
    | spend => exact hsame rfl rfl
    | send => exact hsame rfl rfl
    | drop => exact hsame rfl rfl
    | start => exact hquiet rfl rfl (fun en hen st hev => by simp at hen; subst hen; cases hev)
    | note p h =>
      refine hquiet rfl rfl (fun en hen st hev => ?_)
      simp only [List.map_cons, List.map_nil, List.reverse_singleton, List.mem_singleton] at hen
      subst hen
      obtain ⟨o, rfl⟩ | ⟨n, rfl⟩ := h
      · cases hev
      · cases hev
    | env h =>
      obtain ⟨-, ho, hh, -⟩ := Core.env_cases h
      exact hsame hh ho

/-- The stored hash is the hash of the stored request. -/
theorem Lawful.requestHash (h : Lawful P c) : ∀ {k : Uuid} {row : Job}, c.db.job k = some row →
    row.requestHash = P.buildRequestHash row.type row.payload := by
  induction h with
  | init => intro k row hk; cases hk
  | step _ hstep ih =>
    intro k row' hk
    rcases hstep.jobEffect.row_cases hk with hk | ⟨-, _, _, _, _, _, _, _, rfl⟩ |
      ⟨row, st, hrow, -, -, rfl, -⟩
    · exact ih hk
    · rfl
    · have hid := st.update.keeps row
      have hh : (st.update.set row).requestHash = row.requestHash :=
        congrArg JobIdentity.requestHash hid
      have ht : (st.update.set row).type = row.type := congrArg JobIdentity.type hid
      have hp : (st.update.set row).payload = row.payload := congrArg JobIdentity.payload hid
      rw [hh, ht, hp]
      exact ih hrow

end CloudJob
