import CloudJob.Contract.Protocol

/-!
# `Contract/Steps.lean` — every step keeps the contract

For each kind of step of `Contract/Effects.lean`: the invariant survives it, and it stays within
what the other processes rely on. -/

set_option autoImplicit false

namespace CloudJob

open Lib

variable {P : Params} {s s' : Shared} {p q : Pid} {c' : Core}

/-! ## Transporting ownership -/

theorem Ready.mono {st : Stmt} (h : Ready P s q st) (hcore : s'.core = s.core)
    (hcalls : s'.calls q = s.calls q) (hl : ∀ r, s.locks r = some q → s'.locks r = some q)
    (hu : ∀ u, s.uuidOwner u = some q → s'.uuidOwner u = some q) : Ready P s' q st := by
  refine ⟨?_, fun hst hi => ?_, fun hst hi => hu _ (h.token hst hi), fun hi => hu _ (h.fresh hi),
    h.blank, h.reached, h.entitled.mono hcalls hl hu (by rw [hcore]) (by rw [hcore])
      fun _ => by rw [hcore]⟩
  · have hd := h.dispatch
    cases st with
    | insertEvent ev => exact hl _ hd
    | updateEvent e est =>
      cases est with
      | recordPublishFailure => trivial
      | markPublished now =>
        intro ev hev
        rw [hcore] at hev
        exact hl _ (hd ev hev)
    | insertJob => trivial
    | insertLog => trivial
    | updateJob => trivial
  · obtain ⟨row, hrow, hlock⟩ := h.owner hst hi
    exact ⟨row, by rw [hcore]; exact hrow, hl _ hlock⟩

theorem Owned.mono {st : Stmt} (h : Owned P s q st) (hcore : s'.core = s.core)
    (hcalls : s'.calls q = s.calls q) (hl : ∀ r, s.locks r = some q → s'.locks r = some q)
    (hu : ∀ u, s.uuidOwner u = some q → s'.uuidOwner u = some q) : Owned P s' q st :=
  ⟨h.toReady.mono hcore hcalls hl hu, fun r hr => hl r (h.rows r hr)⟩

/-- What `q` has staged stays its own, whatever the others do. -/
theorem Owned.rely {st : Stmt} (h : Owned P s q st) (hr : Rely q s s') : Owned P s' q st := by
  refine ⟨⟨?_, fun hst hi => ?_, fun hst hi => hr.uuids (h.token hst hi),
    fun hi => hr.uuids (h.fresh hi), h.blank, h.reached, h.entitled.mono hr.calls
      (fun r hl => (hr.locks r).mpr hl) (fun _ hu => hr.uuids hu) hr.keeps.clock hr.keeps.history
      fun {j jst} hst => hr.keeps.job (h.rows _ ?_)⟩, fun r hm => (hr.locks r).mpr (h.rows r hm)⟩
  · have hd := h.dispatch
    cases st with
    | insertEvent ev => exact (hr.locks _).mpr hd
    | updateEvent e est =>
      cases est with
      | recordPublishFailure => trivial
      | markPublished now =>
        intro ev hev
        rw [hr.keeps.event (h.rows _ List.mem_cons_self)] at hev
        exact (hr.locks _).mpr (hd ev hev)
    | insertJob => trivial
    | insertLog => trivial
    | updateJob => trivial
  · obtain ⟨row, hrow, hlock⟩ := h.owner hst hi
    obtain ⟨row', hrow', hid⟩ := hr.keeps.jobs hrow
    refine ⟨row', hrow', ?_⟩
    rw [show row'.ownerId = row.ownerId from congrArg JobIdentity.ownerId hid]
    exact (hr.locks _).mpr hlock
  · rw [hst]
    exact List.mem_cons_self

/-! ## Locks -/

theorem Shared.locks_lock_of_ne {rs : List LockRow}
    (hfree : ∀ r ∈ rs, s.free p r = true) (hq : q ≠ p)
    (r : LockRow) : (s.lock p rs).locks r = some q ↔ s.locks r = some q := by
  show (if r ∈ rs then some p else s.locks r) = some q ↔ _
  split
  · rename_i hr
    have hf := hfree r hr
    simp only [Shared.free, Bool.or_eq_true, beq_iff_eq] at hf
    constructor
    · intro h
      exact absurd (Option.some.inj h).symm hq
    · intro h
      rcases hf with hf | hf
      · rw [hf] at h
        cases h
      · rw [hf] at h
        exact absurd (Option.some.inj h).symm hq
  · exact Iff.rfl

theorem Shared.locks_lock_self {rs : List LockRow} {r : LockRow} :
    (s.lock p rs).locks r = some p ↔ r ∈ rs ∨ s.locks r = some p := by
  show (if r ∈ rs then some p else s.locks r) = some p ↔ _
  split
  · rename_i hr
    simp [hr]
  · rename_i hr
    simp [hr]

theorem Shared.locks_release_of_ne (hq : q ≠ p) (r : LockRow) :
    (s.release p).locks r = some q ↔ s.locks r = some q := by
  show (if s.locks r = some p then none else s.locks r) = some q ↔ _
  split
  · rename_i hr
    rw [hr]
    constructor
    · intro h
      cases h
    · intro h
      exact absurd (Option.some.inj h).symm hq
  · exact Iff.rfl

theorem Shared.locks_release_self (r : LockRow) : (s.release p).locks r ≠ some p := by
  show (if s.locks r = some p then none else s.locks r) ≠ some p
  split
  · nofun
  · assumption

theorem Shared.staged_release_of_ne (hq : q ≠ p) : (s.release p).staged q = s.staged q :=
  Function.update_of_ne hq _ _

@[simp] theorem Shared.staged_release_self : (s.release p).staged p = [] := Function.update_self ..

/-! ## Steps that leave the durable state alone -/

theorem Inv.of_core (hi : Inv P s) (hcore : s'.core = s.core) (hcalls : s'.calls = s.calls)
    (hstaged : ∀ {q : Pid} {st : Stmt}, st ∈ s'.staged q → Owned P s' q st)
    (huuids : ∀ {u : Uuid} {q : Pid}, s.uuidOwner u = some q → s'.uuidOwner u = some q)
    (hlocks : ∀ {e : Uuid} {q : Pid}, s'.locks (.event e) = some q →
      s.core.db.event e ≠ none ∨ s'.uuidOwner e = some q) : Inv P s' := by
  have hnone : ∀ {u : Uuid}, s'.uuidOwner u = none → s.uuidOwner u = none := by
    intro u hu
    cases h : s.uuidOwner u with
    | none => rfl
    | some q => rw [huuids h] at hu; cases hu
  refine ⟨hcore ▸ hi.lawful, hstaged, ?_, fun hu => ?_, fun hu => ?_, fun hl => ?_,
    hcore ▸ hi.available, hcore ▸ hi.messages⟩
  · intro q m hm
    have hm' : s.handling q = some m := by rwa [Shared.handling, hcalls] at hm
    rw [hcore]
    exact hi.handled hm'
  · rw [hcore]
    exact hi.tokens (hnone hu)
  · rw [hcore]
    exact hi.events (hnone hu)
  · rw [hcore]
    exact hlocks hl

theorem Inv.drew (hi : Inv P s) {u : Uuid} (hu : s.uuidOwner u = none) :
    Inv P { s with uuidOwner := Function.update s.uuidOwner u (some p) } := by
  have huuids : ∀ {v : Uuid} {q : Pid}, s.uuidOwner v = some q →
      Function.update s.uuidOwner u (some p) v = some q := by
    intro v q hv
    rw [Function.update_of_ne]
    · exact hv
    · rintro rfl
      rw [hu] at hv
      cases hv
  refine hi.of_core rfl rfl (fun hst => (hi.staged hst).mono rfl rfl (fun _ h => h) fun _ h =>
    huuids h)
    huuids fun hl => ?_
  exact (hi.eventLocks hl).imp_right huuids

theorem Rely.drew {u : Uuid} (hu : s.uuidOwner u = none) (q : Pid) :
    Rely q s { s with uuidOwner := Function.update s.uuidOwner u (some p) } := by
  refine .of_core rfl rfl (fun _ => Iff.rfl) (fun {v r} hv => ?_) rfl
  show Function.update s.uuidOwner u (some p) v = some r
  rw [Function.update_of_ne]
  · exact hv
  · rintro rfl
    rw [hu] at hv
    cases hv

/-- A row that is in the view of `p` is committed, or `p` drew its id. -/
theorem Inv.event_view (hi : Inv P s) {e : Uuid} (h : (s.view p).event e ≠ none) :
    s.core.db.event e ≠ none ∨ s.uuidOwner e = some p := by
  by_contra hno
  rw [not_or, not_not] at hno
  refine h (event_applyAll_none (fun st hst hin => hno.2 ?_) hno.1)
  exact (hi.staged hst).fresh hin

theorem Inv.locked (hi : Inv P s) {rs : List LockRow} (hfree : ∀ r ∈ rs, s.free p r = true)
    (hev : ∀ e, .event e ∈ rs → s.core.db.event e ≠ none ∨ s.uuidOwner e = some p) :
    Inv P (s.lock p rs) := by
  have hkeep : ∀ q r, s.locks r = some q → (s.lock p rs).locks r = some q := by
    intro q r hr
    by_cases hq : q = p
    · subst hq
      exact Shared.locks_lock_self.mpr (.inr hr)
    · exact (Shared.locks_lock_of_ne hfree hq r).mpr hr
  refine hi.of_core rfl rfl (fun {q st} hst => (hi.staged hst).mono rfl rfl (hkeep q) fun _ h =>
    h) id
    fun {e q} hl => ?_
  by_cases hq : q = p
  · subst hq
    rcases Shared.locks_lock_self.mp hl with hm | hl
    · exact hev e hm
    · exact hi.eventLocks hl
  · exact hi.eventLocks ((Shared.locks_lock_of_ne hfree hq _).mp hl)

theorem Rely.locked {rs : List LockRow} (hfree : ∀ r ∈ rs, s.free p r = true) (hq : q ≠ p) :
    Rely q s (s.lock p rs) :=
  .of_core rfl rfl (fun r => Shared.locks_lock_of_ne hfree hq r) id rfl

theorem Rely.stage (hq : q ≠ p) (st : Stmt) : Rely q s (s.stage p st) :=
  .of_core rfl (Function.update_of_ne hq _ _) (fun _ => Iff.rfl) id rfl

theorem Inv.wrote (hi : Inv P s) {st : Stmt} (hready : Ready P s p st)
    (hmatch : st.outcome (s.view p) = .matched) (hfree : ∀ r ∈ st.rows, s.free p r = true) :
    Inv P ((s.lock p st.rows).stage p st) := by
  have hev : ∀ e, .event e ∈ st.rows → s.core.db.event e ≠ none ∨ s.uuidOwner e = some p := by
    intro e he
    cases st with
    | insertEvent ev =>
      simp only [Stmt.rows, List.mem_singleton, LockRow.event.injEq] at he
      exact .inr (hready.fresh (by rw [he]; rfl))
    | updateEvent id est =>
      simp only [Stmt.rows, List.mem_singleton, LockRow.event.injEq] at he
      subst he
      refine hi.event_view fun hnone => ?_
      simp [Stmt.outcome, hnone] at hmatch
    | insertJob => simp [Stmt.rows] at he
    | insertLog => simp [Stmt.rows] at he
    | updateJob => simp [Stmt.rows] at he
  have hl := hi.locked hfree hev
  refine hl.of_core rfl rfl (fun {q st'} hst' => ?_) id fun h => hl.eventLocks h
  by_cases hq : q = p
  · subst hq
    have hst' : st' ∈ s.staged q ++ [st] := by
      rwa [show ((s.lock q st.rows).stage q st).staged q = s.staged q ++ [st] from
        Function.update_self ..] at hst'
    rcases List.mem_append.mp hst' with hm | hm
    · exact (hl.staged hm).mono rfl rfl (fun _ h => h) fun _ h => h
    · rw [List.mem_singleton] at hm
      subst hm
      have hlock : ∀ r, s.locks r = some q → (s.lock q st'.rows).locks r = some q :=
        fun r hr => Shared.locks_lock_self.mpr (.inr hr)
      exact ⟨hready.mono rfl rfl hlock fun _ h => h, fun r hr =>
        Shared.locks_lock_self.mpr (.inl hr)⟩
  · have hst' : st' ∈ s.staged q := by
      rwa [show ((s.lock p st.rows).stage p st).staged q = s.staged q from
        Function.update_of_ne hq _ _] at hst'
    exact (hl.staged hst').mono rfl rfl (fun _ h => h) fun _ h => h

theorem Inv.released (hi : Inv P s) : Inv P (s.release p) := by
  refine hi.of_core rfl rfl (fun {q st} hst => ?_) id fun {e q} hl => ?_
  · by_cases hq : q = p
    · subst hq
      rw [Shared.staged_release_self] at hst
      cases hst
    · rw [Shared.staged_release_of_ne hq] at hst
      exact (hi.staged hst).mono rfl rfl (fun r hr => (Shared.locks_release_of_ne hq r).mpr hr)
        fun _ h => h
  · by_cases hq : q = p
    · subst hq
      exact absurd hl (Shared.locks_release_self _)
    · exact hi.eventLocks ((Shared.locks_release_of_ne hq _).mp hl)

theorem Rely.released (hq : q ≠ p) : Rely q s (s.release p) :=
  .of_core rfl (Shared.staged_release_of_ne hq) (Shared.locks_release_of_ne hq) id rfl

/-! ## The commit -/

theorem Rely.committed (hi : Inv P s) (hq : q ≠ p) :
    Rely q s ({ s with core := s.core.commit p (s.staged p) }.release p) := by
  have hst : ∀ st ∈ s.staged p, Owned P s p st := fun st hm => hi.staged hm
  refine ⟨rfl, Shared.staged_release_of_ne hq, Shared.locks_release_of_ne hq, id, .commit hst hq,
    fun hu => .commit hst fun hp => hq ?_⟩
  rw [hu] at hp
  exact Option.some.inj hp

theorem Inv.committed (hi : Inv P s) (htxn : Txn P s.core (s.staged p)) :
    Inv P ({ s with core := s.core.commit p (s.staged p) }.release p) := by
  have hst : ∀ st ∈ s.staged p, Owned P s p st := fun st hm => hi.staged hm
  have hne : ∀ {u : Uuid}, s.uuidOwner u = none → s.uuidOwner u ≠ some p := by
    intro u hu hp
    rw [hu] at hp
    cases hp
  have hsuffix : s.core.history <:+ (s.core.commit p (s.staged p)).history := List.suffix_append _ _
  have hinserts : ∀ {ev : OutboxEvent}, .insertEvent ev ∈ s.staged p →
      (s.core.commit p (s.staged p)).Inserts ev := by
    intro ev hev
    refine ⟨⟨p, s.core.clock, .stmt (.insertEvent ev)⟩, List.mem_append_left _ ?_, rfl⟩
    rw [List.mem_reverse, List.map_map]
    exact List.mem_map_of_mem hev
  refine ⟨hi.lawful.txn htxn p, fun {q st} hm => ?_, hi.handled, fun hu => ?_, fun hu => ?_,
    fun {e q} hl => ?_, fun {e ev'} hev' => ?_, fun hm hd =>
    (hi.messages hm hd).mono le_rfl hsuffix⟩
  · by_cases hq : q = p
    · subst hq
      rw [Shared.staged_release_self] at hm
      cases hm
    · rw [Shared.staged_release_of_ne hq] at hm
      exact Owned.rely (hi.staged hm) (.committed hi hq)
  · exact ((OwnKept.commit hst (hne hu)).issued).trans (hi.tokens hu)
  · exact (OwnKept.commit hst (hne hu)).event (hi.events hu)
  · by_cases hq : q = p
    · subst hq
      exact absurd hl (Shared.locks_release_self _)
    · refine (hi.eventLocks ((Shared.locks_release_of_ne hq _).mp hl)).imp_left fun hsome => ?_
      obtain ⟨ev, hev⟩ := Option.ne_none_iff_exists'.mp hsome
      obtain ⟨ev', hev', -⟩ := event_applyAll_stays (l := s.staged p) hev
      show (s.core.db.applyAll (s.staged p)).event e ≠ none
      rw [hev']
      nofun
  · rcases event_applyAll_available hev' with ⟨error, next, now, hst'⟩ | ⟨ev, hev, hat⟩ |
      ⟨ev, hev, hid, hat⟩
    · exact .inl (Core.WasDue.mono (hst _ hst').entitled le_rfl hsuffix)
    · refine (hi.available hev).imp (fun hdue => hdue.mono le_rfl hsuffix) ?_
      rintro ⟨ev₀, hins, hid, hat₀⟩
      exact ⟨ev₀, hins.mono hsuffix, hid, hat₀.trans hat⟩
    · exact .inr ⟨ev, hinserts hev, hid, hat⟩

/-! ## Steps of the broker and the history -/

theorem Inv.of_sameTables (hi : Inv P s) (h : SameTables s.core c') (hlaw : Lawful P c')
    (hh : ∀ {q : Pid} {m : Message}, s.handling q = some m →
      m.id < c'.nextMsg ∧ ∀ m' ∈ c'.broker, m'.id = m.id → m' = m)
    (hm : ∀ {m : Message} {d : DispatchOutboxMessage}, m ∈ c'.broker → m.body = .dispatch d →
      c'.WasDue P d.eventId) :
    Inv P { s with core := c' } := by
  refine ⟨hlaw, fun {q st} hst => ?_, hh, fun hu => ?_, fun hu => ?_, fun hl => ?_,
    fun {e ev} hev => ?_, hm⟩
  · have ho := hi.staged hst
    refine ⟨⟨?_, fun hs hi' => ?_, ho.token, ho.fresh, ho.blank, ho.reached, ho.entitled.mono rfl
      (fun _ hl => hl) (fun _ hu => hu) h.clock h.history fun _ => h.job _⟩, ho.rows⟩
    · have hd := ho.dispatch
      cases st with
      | insertEvent ev => exact hd
      | updateEvent e est =>
        cases est with
        | recordPublishFailure => trivial
        | markPublished now =>
          intro ev hev
          exact hd ev ((h.event e).symm.trans hev)
      | insertJob => trivial
      | insertLog => trivial
      | updateJob => trivial
    · obtain ⟨row, hrow, hlock⟩ := ho.owner hs hi'
      exact ⟨row, (h.job _).trans hrow, hlock⟩
  · show c'.issued _ = 0
    rw [Core.issued, h.committed]
    exact hi.tokens hu
  · exact (h.event _).trans (hi.events hu)
  · exact (hi.eventLocks hl).imp_left fun hsome hnone => hsome ((h.event _).symm.trans hnone)
  · refine (hi.available ((h.event e).symm.trans hev)).imp (fun hdue =>
      hdue.mono h.clock h.history) ?_
    rintro ⟨ev₀, hins, hrest⟩
    exact ⟨ev₀, hins.mono h.history, hrest⟩

theorem Rely.of_sameTables (h : SameTables s.core c')
    (hu : ∀ {j : Uuid}, s.locks (.job j) = some q → s.core.Unspent j → c'.Unspent j)
    (hs : ∀ {u : Uuid}, s.uuidOwner u = some q → c'.startedAs u = s.core.startedAs u) :
    Rely q s { s with core := c' } :=
  ⟨rfl, rfl, fun _ => Iff.rfl, id, .of_sameTables h hu, fun ho => .of_sameTables h (hs ho)⟩

theorem SameTables.of_db {c : Core} (hdb : c'.db = c.db) (hclock : c.clock ≤ c'.clock)
    (hh : c'.history = c.history) (hspent : ∀ id ∈ c.spent, id ∈ c'.spent) : SameTables c c' :=
  ⟨by rw [hdb], by rw [hdb], fun _ hu => hdb ▸ hu, hclock, by rw [Core.committed, hh]; rfl,
    hh ▸ List.suffix_rfl, hspent⟩

theorem Core.Unspent.spend {c : Core} {m : Message} {j : Uuid}
    (huniq : ∀ m' ∈ c.broker, m'.id = m.id → m' = m)
    (hno : m.IsFor j → m.id ∈ c.spent) (h : c.Unspent j) :
    Core.Unspent { c with spent := m.id :: c.spent } j := by
  obtain ⟨m', hm', hfor, hns⟩ := h
  refine ⟨m', hm', hfor, fun hmem => ?_⟩
  rcases List.mem_cons.mp hmem with hid | hmem
  · have hmm := huniq m' hm' hid
    subst hmm
    exact hns (hno hfor)
  · exact hns hmem

theorem Message.IsFor.unique {m : Message} {j j' : Uuid} (h : m.IsFor j) (h' : m.IsFor j') :
    j = j' := by
  obtain ⟨d, hd, rfl⟩ := h
  obtain ⟨d', hd', rfl⟩ := h'
  rw [hd] at hd'
  cases hd'
  rfl

/-- What `spend` can be. -/
theorem Shared.spend_cases (s : Shared) (p : Pid) : s.spend p = s ∨
    ∃ m, s.handling p = some m ∧
      s.spend p = { s with core := { s.core with spent := m.id :: s.core.spent } } := by
  unfold Shared.spend
  cases h : s.handling p with
  | none => exact .inl rfl
  | some m => exact .inr ⟨m, rfl, rfl⟩

theorem SameTables.spend (c : Core) (id : Nat) : SameTables c { c with spent := id :: c.spent } :=
  .of_db rfl le_rfl rfl fun _ h => List.mem_cons_of_mem _ h

/-- Spending a message that is spent, or whose job can do without it. -/
theorem Inv.spent (hi : Inv P s)
    (hok : ∀ m, s.handling p = some m → m.id ∈ s.core.spent ∨ s.core.Dispensable m) :
    Inv P (s.spend p) := by
  rcases s.spend_cases p with h | ⟨m, hm, h⟩
  · rw [h]
    exact hi
  · rw [h]
    obtain ⟨hlt, huniq⟩ := hi.handled hm
    exact hi.of_sameTables (.spend _ _) (hi.lawful.step (.spend hlt huniq (hok m hm))) hi.handled
      hi.messages

/-- The others' unspent messages are untouched: the one that is spent was, or is for a job `p`
held. -/
theorem Rely.spent (hi : Inv P s) (hok : ∀ m, s.handling p = some m → m.id ∈ s.core.spent ∨
      ∃ j, m.IsFor j ∧ s.locks (.job j) ≠ some q) : Rely q s (s.spend p) := by
  rcases s.spend_cases p with h | ⟨m, hm, h⟩
  · rw [h]
    exact .refl q s
  · rw [h]
    refine .of_sameTables (.spend _ _) (fun {j} hl hun => ?_) fun _ => rfl
    refine hun.spend (hi.handled hm).2 fun hfor => ?_
    rcases hok m hm with hin | ⟨j', hfor', hnl⟩
    · exact hin
    · rw [hfor.unique hfor'] at hl
      exact absurd hl hnl

/-- A message more. Whoever handles one was started on an older one. -/
theorem handled_send {c : Core} {body : MessageBody} {m : Message}
    (h : m.id < c.nextMsg ∧ ∀ m' ∈ c.broker, m'.id = m.id → m' = m) :
    m.id < (c.send body).nextMsg ∧ ∀ m' ∈ (c.send body).broker, m'.id = m.id → m' = m := by
  refine ⟨Nat.lt_succ_of_lt h.1, fun m' hm' hid => ?_⟩
  rcases List.mem_cons.mp hm' with rfl | hm'
  · exact absurd hid (Nat.ne_of_gt h.1)
  · exact h.2 m' hm' hid

theorem Core.Unspent.send {c : Core} {body : MessageBody} {j : Uuid} (h : c.Unspent j) :
    (c.send body).Unspent j := by
  obtain ⟨m, hm, hfor, hns⟩ := h
  exact ⟨m, List.mem_cons_of_mem _ hm, hfor, hns⟩

theorem Core.Unspent.drop {c : Core} {id : Nat} {j : Uuid}
    (hok : ∀ m ∈ c.broker, m.id = id → m.id ∈ c.spent ∨ ∀ j, ¬ m.IsFor j) (h : c.Unspent j) :
    (c.drop id).Unspent j := by
  obtain ⟨m, hm, hfor, hns⟩ := h
  refine ⟨m, List.mem_filter.mpr ⟨hm, decide_eq_true fun hid => ?_⟩, hfor, hns⟩
  rcases hok m hm hid with hin | hno
  · exact hns hin
  · exact hno j hfor

theorem SameTables.record {c : Core} {p : Pid} {ev : Event}
    (h : (c.record p [ev]).committed = c.committed) : SameTables c (c.record p [ev]) :=
  ⟨rfl, rfl, fun _ hu => hu, le_rfl, h, List.suffix_append _ _, fun _ h => h⟩

theorem Core.startedAs_record (c : Core) (p : Pid) (ev : Event) (u : Uuid) :
    (c.record p [ev]).startedAs u =
      c.startedAs u + (Entry.startsAs u ⟨p, c.clock, ev⟩).toNat := by
  simp only [Core.startedAs, Core.record, List.map_cons, List.map_nil, List.reverse_cons,
    List.reverse_nil, List.nil_append, List.singleton_append, List.countP_cons]
  cases Entry.startsAs u ⟨p, c.clock, ev⟩ <;> rfl

/-! ## The contract -/

/-- What is left of `SpendOk` once the locks are gone. -/
theorem SpendOk.dispensable {db : Db} (h : SpendOk s p db) (hdb : c'.db = db)
    (hspent : c'.spent = s.core.spent) :
    ∀ m, s.handling p = some m → m.id ∈ c'.spent ∨ c'.Dispensable m := by
  intro m hm
  rcases h m hm with hin | ⟨j, hfor, -, hq⟩
  · exact .inl (hspent ▸ hin)
  · refine .inr fun j' hfor' row hrow hs => ?_
    have hj := hfor'.unique hfor
    subst hj
    rw [hdb] at hrow ⊢
    exact hq row hrow hs

theorem SpendOk.others {db : Db} (h : SpendOk s p db) (hq : q ≠ p) :
    ∀ m, s.handling p = some m → m.id ∈ s.core.spent ∨
      ∃ j, m.IsFor j ∧ (s.release p).locks (.job j) ≠ some q := by
  intro m hm
  rcases h m hm with hin | ⟨j, hfor, hl, -⟩
  · exact .inl hin
  · refine .inr ⟨j, hfor, fun hlq => ?_⟩
    have := (Shared.locks_release_of_ne hq _).mp hlq
    exact hq (ne_of_locks hl this)

theorem Inv.call {o : Op} (hi : Inv P s) (hpre : Pre P p o s) (h : CallEffect p o s s') :
    Inv P s' ∧ ∀ q, q ≠ p → Rely q s s' := by
  cases h with
  | nothing => exact ⟨hi, fun q _ => .refl q s⟩
  | drew u hu => exact ⟨hi.drew hu, fun q _ => .drew hu q⟩
  | locked rs hfree hev =>
    exact ⟨hi.locked hfree fun e he => hi.event_view (hev e he), fun q hq => .locked hfree hq⟩
  | wrote st ho hmatch hfree =>
    subst ho
    exact ⟨hi.wrote hpre.1 hmatch hfree, fun q hq => (Rely.locked hfree hq).trans (.stage hq st)⟩
  | released => exact ⟨hi.released, fun q hq => .released hq⟩
  | committed ho =>
    subst ho
    exact ⟨hi.committed hpre.1, fun q hq => .committed hi hq⟩
  | committedAnswered ho =>
    subst ho
    obtain ⟨htxn, hspend, -⟩ := hpre
    have hi' := hi.committed htxn
    refine ⟨hi'.spent (hspend.dispensable rfl rfl), fun q hq => (Rely.committed hi hq).trans ?_⟩
    exact .spent hi' (hspend.others hq)
  | left ho =>
    subst ho
    have hspend : SpendOk s p s.core.db := hpre
    refine ⟨hi.released.spent (hspend.dispensable rfl rfl), fun q hq => (Rely.released hq).trans ?_⟩
    exact .spent hi.released (hspend.others hq)
  | sent m ho =>
    subst ho
    have hs : SameTables s.core (s.core.send (.dispatch m)) := .of_db rfl le_rfl rfl fun _ h => h
    refine ⟨hi.of_sameTables hs (hi.lawful.step (.send hpre.2.1))
      (fun hm => handled_send (hi.handled hm))
      fun {m' d} hm' hd => ?_, fun q _ => .of_sameTables hs (fun _ hun => hun.send) fun _ => rfl⟩
    rcases List.mem_cons.mp hm' with rfl | hm'
    · cases hd
      exact hpre.2.2.2.1.mono le_rfl List.suffix_rfl
    · exact (hi.messages hm' hd).mono le_rfl List.suffix_rfl
  | dropped id ho =>
    have hok : ∀ m ∈ s.core.broker, m.id = id → m.id ∈ s.core.spent ∨ ∀ j, ¬ m.IsFor j := by
      intro m hm hid
      rcases ho with rfl | rfl
      · have hin : id ∈ s.core.spent := hpre
        exact .inl (hid ▸ hin)
      · obtain ⟨m', hm', hid', hno⟩ := hpre
        have hmm := (hi.handled hm').2 m hm (hid.trans hid'.symm)
        exact .inr (hmm ▸ hno)
    have hs : SameTables s.core (s.core.drop id) := .of_db rfl le_rfl rfl fun _ h => h
    refine ⟨hi.of_sameTables hs (hi.lawful.step (.drop hok)) (fun hm => ?_) fun hm hd => ?_,
      fun q _ => .of_sameTables hs (fun _ hun => hun.drop hok) fun _ => rfl⟩
    · obtain ⟨hlt, huniq⟩ := hi.handled hm
      exact ⟨hlt, fun m' hm' hid => huniq m' (List.mem_of_mem_filter hm') hid⟩
    · exact (hi.messages (List.mem_of_mem_filter hm) hd).mono le_rfl List.suffix_rfl
  | started j token ho =>
    subst ho
    obtain ⟨hown, hnot, hx⟩ := hpre
    have hs : SameTables s.core (s.core.record p [.handlerStarted j token]) := .record rfl
    refine ⟨hi.of_sameTables hs (hi.lawful.step (.start p hnot hx)) hi.handled
        fun hm hd => (hi.messages hm hd).mono le_rfl hs.history,
      fun q hq => .of_sameTables hs (fun _ hun => hun) fun {u} hu => ?_⟩
    rw [Core.startedAs_record]
    have hne : (token == u) = false := by
      refine beq_eq_false_iff_ne.mpr ?_
      rintro rfl
      rw [hown] at hu
      exact hq (Option.some.inj hu).symm
    simp [Entry.startsAs, hne]
  | noted ev ho =>
    have hev := Op.notes_cases ho
    have hs : SameTables s.core (s.core.record p [ev]) := .record (Core.committed_note _ _ hev)
    refine ⟨hi.of_sameTables hs (hi.lawful.step (.note p hev)) hi.handled
        fun hm hd => (hi.messages hm hd).mono le_rfl hs.history,
      fun q hq => .of_sameTables hs (fun _ hun => hun) fun {u} hu => ?_⟩
    rw [Core.startedAs_record]
    obtain ⟨o, rfl⟩ | ⟨n, rfl⟩ := hev <;> rfl

theorem Inv.env {a : EnvAct} (hi : Inv P s) (h : s.env a = some s') :
    Inv P s' ∧ ∀ q, Rely q s s' := by
  obtain ⟨c', hc', rfl⟩ := Option.map_eq_some_iff.mp h
  have hlaw : Lawful P c' := hi.lawful.step (.env hc')
  obtain ⟨hj, ho, hh, -⟩ := Core.env_cases hc'
  have htables : s.core.clock ≤ c'.clock → (∀ id ∈ s.core.spent, id ∈ c'.spent) →
      SameTables s.core c' := fun hclock hspent =>
    ⟨hj, ho, (Core.Step.env hc' : Core.Step P s.core c').users, hclock,
      by rw [Core.committed, hh]; rfl, hh ▸ List.suffix_rfl, hspent⟩
  have hstarted : ∀ u, c'.startedAs u = s.core.startedAs u := fun u => by
    rw [Core.startedAs, hh]; rfl
  have hdone : SameTables s.core c' →
      (∀ {q : Pid} {m : Message}, s.handling q = some m →
        m.id < c'.nextMsg ∧ ∀ m' ∈ c'.broker, m'.id = m.id → m' = m) →
      (∀ {j : Uuid}, s.core.Unspent j → c'.Unspent j) →
      (∀ {m : Message} {d : DispatchOutboxMessage}, m ∈ c'.broker → m.body = .dispatch d →
        ∃ m₀ ∈ s.core.broker, m₀.body = .dispatch d) →
      Inv P { s with core := c' } ∧ ∀ q, Rely q s { s with core := c' } := by
    intro hs hh hu hm
    refine ⟨hi.of_sameTables hs hlaw hh fun hmem hd => ?_,
      fun _ => .of_sameTables hs (fun _ => hu) fun _ => hstarted _⟩
    obtain ⟨m₀, hm₀, hd₀⟩ := hm hmem hd
    exact (hi.messages hm₀ hd₀).mono hs.clock hs.history
  cases a with
  | tick d =>
    cases hc'
    exact hdone (htables (Int.le_add_of_nonneg_right (Int.natCast_nonneg d)) fun _ h =>
      h) hi.handled id
      fun hm hd => ⟨_, hm, hd⟩
  | register u =>
    cases hc'
    exact hdone (htables le_rfl fun _ h => h) hi.handled id fun hm hd => ⟨_, hm, hd⟩
  | inject text =>
    cases hc'
    refine hdone (htables le_rfl fun _ h => h) (fun hm => handled_send (hi.handled hm))
      Core.Unspent.send fun hm hd => ?_
    rcases List.mem_cons.mp hm with rfl | hm
    · cases hd
    · exact ⟨_, hm, hd⟩
  | duplicate m =>
    simp only [Core.env] at hc'
    split at hc'
    · cases hc'
      rename_i hmem
      refine hdone (htables le_rfl fun id hid => ?_) (fun hm => handled_send (hi.handled hm)) ?_
        fun {m' d} hm' hd => ?_
      · show id ∈ if m.id ∈ s.core.spent then s.core.nextMsg :: s.core.spent else s.core.spent
        split
        · exact List.mem_cons_of_mem _ hid
        · exact hid
      · rintro j ⟨m', hm', hfor, hns⟩
        refine ⟨m', List.mem_cons_of_mem _ hm', hfor, fun hmem => ?_⟩
        have hlt := hi.lawful.wellFormed.sent hm'
        have hmem : m'.id ∈ if m.id ∈ s.core.spent then s.core.nextMsg :: s.core.spent
          else s.core.spent := hmem
        split at hmem
        · rcases List.mem_cons.mp hmem with heq | hin
          · exact absurd heq (Nat.ne_of_lt hlt)
          · exact hns hin
        · exact hns hmem
      · rcases List.mem_cons.mp hm' with rfl | hm'
        · exact ⟨m, hmem, hd⟩
        · exact ⟨m', hm', hd⟩
    · cases hc'

theorem Inv.start {call : Call} (hi : Inv P s) (h : s.start P p call = some s') :
    Inv P s' ∧ ∀ q, q ≠ p → Rely q s s' := by
  unfold Shared.start at h
  split at h
  · rename_i hadm
    cases h
    have hi' : Inv P (s.release p) := hi.released
    have hother : ∀ {q : Pid} {st : Stmt}, st ∈ (s.release p).staged q → q ≠ p := by
      rintro q st hst rfl
      rw [Shared.staged_release_self] at hst
      cases hst
    refine ⟨⟨hi.lawful, fun hst => (hi'.staged hst).mono rfl
      (Function.update_of_ne (hother hst) _ _)
      (fun _ h => h) fun _ h => h, ?_, hi.tokens, hi.events, hi'.eventLocks, hi.available,
      hi.messages⟩, fun q hq => (Rely.released hq).trans (.of_core
        (Function.update_of_ne hq _ _) rfl (fun _ => Iff.rfl) id rfl)⟩
    intro q m hm
    by_cases hq : q = p
    · -- a consumer is started on a message the broker holds
      subst hq
      simp only [Shared.handling, Function.update_self] at hm
      cases call with
      | handleMessage settings workerId message =>
        cases hm
        simp only [Call.admissible, Bool.and_eq_true, decide_eq_true_eq] at hadm
        have hwf := hi.lawful.wellFormed
        exact ⟨hwf.sent hadm.2, fun m' hm' hid => hwf.distinct hm' hadm.2 hid⟩
      | _ => cases hm
    · simp only [Shared.handling, Function.update_of_ne hq] at hm
      exact hi.handled hm
  · cases h

/-- **The contract of the system.** -/
def contract (P : Params) : Protocol (machine P) where
  inv := Inv P
  rely := Rely
  pre := Pre P
  may _ _ _ _ := True
  rely_refl := Rely.refl
  rely_trans := Rely.trans
  step_ok hi hpre _ he := hi.call hpre (exec_effect he)
  env_ok hi he := hi.env he
  crash_ok hi := ⟨hi.released, fun _ hq => .released hq⟩
  start_ok hi hs := hi.start hs

theorem Inv.init (P : Params) : Inv P Shared.init :=
  ⟨.init, nofun, nofun, fun _ => rfl, fun _ => rfl, nofun, nofun, nofun⟩

end CloudJob
