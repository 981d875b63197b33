import CloudJob.Lifecycle.Batch
import CloudJob.Lifecycle.Coverage

/-!
# `Contract/Rely.lean` — what a process may count on while others run

`Rely p s s'` is everything process `p` knows about a stretch of time in which it did nothing: its
own transaction is as it was, the durable state only grew (`Core.Extends`), whatever `p` has a lock
on is unchanged (`Keeps`), and nobody used a uuid that `p` drew (`OwnKept`).

What a lock protects is more than its row. A lock on a job also protects which of its dispatches are
pending and its unspent messages, because every statement that changes those is made under the lock
of the job; a lock on a user bounds the number of its running jobs, because a job starts running
under the lock of its owner. Those are rules the programs keep among themselves — PostgreSQL knows
nothing of them — and the obligations of `Contract/Protocol.lean` are what makes them true. -/

set_option autoImplicit false

namespace CloudJob

open Lib

variable {P : Params} {c c' c'' : Core} {L : LockRow → Prop}

/-- The durable state only grows. -/
structure Core.Extends (c c' : Core) : Prop where
  clock : c.clock ≤ c'.clock
  users : ∀ u ∈ c.db.users, u ∈ c'.db.users
  jobs : ∀ {j : Uuid} {row : Job}, c.db.job j = some row →
    ∃ row', c'.db.job j = some row' ∧ row'.identity = row.identity
  events : ∀ {e : Uuid} {ev : OutboxEvent}, c.db.event e = some ev →
    ∃ ev', c'.db.event e = some ev' ∧ ev'.aggregateId = ev.aggregateId ∧ ev'.payload = ev.payload
  spent : ∀ id ∈ c.spent, id ∈ c'.spent
  history : c.history <:+ c'.history

theorem Core.Extends.refl (c : Core) : c.Extends c :=
  ⟨le_rfl, fun _ h => h, fun h => ⟨_, h, rfl⟩, fun h => ⟨_, h, rfl, rfl⟩, fun _ h => h,
    List.suffix_rfl⟩

theorem Core.Extends.trans (h : c.Extends c') (h' : c'.Extends c'') : c.Extends c'' := by
  refine ⟨h.clock.trans h'.clock, fun u hu => h'.users u (h.users u hu), ?_, ?_,
    fun id hid => h'.spent id (h.spent id hid), h.history.trans h'.history⟩
  · intro j row hj
    obtain ⟨row', hj', hid⟩ := h.jobs hj
    obtain ⟨row'', hj'', hid'⟩ := h'.jobs hj'
    exact ⟨row'', hj'', hid'.trans hid⟩
  · intro e ev he
    obtain ⟨ev', he', hagg, hpay⟩ := h.events he
    obtain ⟨ev'', he'', hagg', hpay'⟩ := h'.events he'
    exact ⟨ev'', he'', hagg'.trans hagg, hpay'.trans hpay⟩

theorem Core.Extends.committed (h : c.Extends c') :
    ∀ x ∈ c.committed, x ∈ c'.committed := by
  intro x hx
  obtain ⟨new, hnew⟩ := h.history
  rw [Core.committed, ← hnew, List.filterMap_append]
  exact List.mem_append_right _ hx

/-- What is locked by `L` is unchanged. -/
structure Keeps (L : LockRow → Prop) (c c' : Core) : Prop extends c.Extends c' where
  job : ∀ {j : Uuid}, L (.job j) → c'.db.job j = c.db.job j
  event : ∀ {e : Uuid}, L (.event e) → c'.db.event e = c.db.event e
  key : ∀ {o : Uuid} {k : String}, L (.jobKey o k) → c.db.jobByKey o k = none →
    c'.db.jobByKey o k = none
  pending : ∀ {j : Uuid}, L (.job j) → ∀ e, c'.db.Pending j e ↔ c.db.Pending j e
  running : ∀ {o : Uuid}, L (.user o) → c'.db.runningCount o ≤ c.db.runningCount o
  unspent : ∀ {j : Uuid}, L (.job j) → c.Unspent j → c'.Unspent j

theorem Keeps.refl (c : Core) : Keeps L c c :=
  ⟨.refl c, fun _ => rfl, fun _ => rfl, fun _ h => h, fun _ _ => Iff.rfl, fun _ => le_rfl,
    fun _ h => h⟩

theorem Keeps.trans (h : Keeps L c c') (h' : Keeps L c' c'') : Keeps L c c'' :=
  ⟨h.toExtends.trans h'.toExtends, fun hl => (h'.job hl).trans (h.job hl),
    fun hl => (h'.event hl).trans (h.event hl), fun hl hk => h'.key hl (h.key hl hk),
    fun hl e => (h'.pending hl e).trans (h.pending hl e),
    fun hl => (h'.running hl).trans (h.running hl), fun hl hu => h'.unspent hl (h.unspent hl hu)⟩

theorem Keeps.mono {L' : LockRow → Prop} (h : Keeps L c c') (himp : ∀ r, L' r → L r) :
    Keeps L' c c' :=
  ⟨h.toExtends, fun hl => h.job (himp _ hl), fun hl => h.event (himp _ hl),
    fun hl => h.key (himp _ hl), fun hl => h.pending (himp _ hl), fun hl => h.running (himp _ hl),
    fun hl => h.unspent (himp _ hl)⟩

/-- Nobody used the uuid `u`. -/
structure OwnKept (u : Uuid) (c c' : Core) : Prop where
  event : c.db.event u = none → c'.db.event u = none
  issued : c'.issued u = c.issued u
  started : c'.startedAs u = c.startedAs u
  token : ∀ {j : Uuid} {row' : Job}, c'.db.job j = some row' → row'.executionToken = some u →
    ∃ row, c.db.job j = some row ∧ row.executionToken = some u ∧
    row.attemptCount = row'.attemptCount ∧
      (row.cancelRequestedAt.isSome = true → row'.cancelRequestedAt.isSome = true)

theorem OwnKept.refl (u : Uuid) (c : Core) : OwnKept u c c :=
  ⟨id, rfl, rfl, fun h ht => ⟨_, h, ht, rfl, id⟩⟩

theorem OwnKept.trans {u : Uuid} (h : OwnKept u c c') (h' : OwnKept u c' c'') :
    OwnKept u c c'' := by
  refine ⟨fun he => h'.event (h.event he), h'.issued.trans h.issued, h'.started.trans h.started, ?_⟩
  intro j row'' hrow'' ht
  obtain ⟨row', hrow', ht', hatt', hc'⟩ := h'.token hrow'' ht
  obtain ⟨row, hrow, ht, hatt, hc⟩ := h.token hrow' ht'
  exact ⟨row, hrow, ht, hatt.trans hatt', fun hs => hc' (hc hs)⟩

/-- What process `p` may assume of what the others did. -/
structure Rely (p : Pid) (s s' : Shared) : Prop where
  calls : s'.calls p = s.calls p
  staged : s'.staged p = s.staged p
  locks : ∀ r, s'.locks r = some p ↔ s.locks r = some p
  uuids : ∀ {u : Uuid} {q : Pid}, s.uuidOwner u = some q → s'.uuidOwner u = some q
  keeps : Keeps (fun r => s.locks r = some p) s.core s'.core
  own : ∀ {u : Uuid}, s.uuidOwner u = some p → OwnKept u s.core s'.core

theorem Rely.refl (p : Pid) (s : Shared) : Rely p s s :=
  ⟨rfl, rfl, fun _ => Iff.rfl, id, .refl _, fun _ => .refl _ _⟩

theorem Rely.trans {p : Pid} {s s' s'' : Shared} (h : Rely p s s') (h' : Rely p s' s'') :
    Rely p s s'' :=
  ⟨h'.calls.trans h.calls, h'.staged.trans h.staged, fun r => (h'.locks r).trans (h.locks r),
    fun hu => h'.uuids (h.uuids hu),
    h.keeps.trans (h'.keeps.mono fun r hr => (h.locks r).mpr hr),
    fun hu => (h.own hu).trans (h'.own (h.uuids hu))⟩

/-- A step that leaves `p`'s own things and the durable state alone. -/
theorem Rely.of_core {p : Pid} {s s' : Shared} (hcalls : s'.calls p = s.calls p)
    (hstaged : s'.staged p = s.staged p) (hlocks : ∀ r, s'.locks r = some p ↔ s.locks r = some p)
    (huuids : ∀ {u : Uuid} {q : Pid}, s.uuidOwner u = some q → s'.uuidOwner u = some q)
    (hcore : s'.core = s.core) : Rely p s s' :=
  ⟨hcalls, hstaged, hlocks, huuids, hcore ▸ .refl _, fun _ => hcore ▸ .refl _ _⟩

end CloudJob
