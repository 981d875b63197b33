import CloudJob.Accounts
import CloudJob.Lib.Rely

/-!
# `Contract/Accounts.lean` — the contract of the accounts

What the transactions on `users` owe each other. A transaction makes one statement at most, so that
a commit is one `Change`, and a change is on a row its process has locked. `AuthInv` says what is
true of the rows and of the tokens between any two steps: no two accounts share an address, who is
an administrator was made one, and behind every token there is a login. -/

set_option autoImplicit false

namespace CloudJob

open Lib

variable {users users' : UserTable} {k : Uuid} {email : String}

/-! ## The table -/

theorem byEmail_eq_none : byEmail users email = none ↔ ∀ row ∈ users.rows, row.email ≠ email := by
  simp [byEmail]

theorem byEmail_eq_some {row : User} (h : byEmail users email = some row) :
    row ∈ users.rows ∧ row.email = email :=
  ⟨List.mem_of_find?_eq_some h, by simpa using List.find?_some h⟩

/-- No two accounts share an address. -/
def Distinct (users : UserTable) : Prop :=
  ∀ row ∈ users.rows, ∀ row' ∈ users.rows, row.email = row'.email → row = row'

/-- What no statement takes back: which account it is, and that it is an administrator's. -/
structure User.SameAccount (row row' : User) : Prop where
  id : row'.id = row.id
  email : row'.email = row.email
  createdAt : row'.createdAt = row.createdAt
  admin : row.role = .admin → row'.role = .admin

theorem User.SameAccount.refl (row : User) : row.SameAccount row := ⟨rfl, rfl, rfl, fun h => h⟩

theorem User.SameAccount.trans {row row' row'' : User} (h : row.SameAccount row')
    (h' : row'.SameAccount row'') : row.SameAccount row'' :=
  ⟨h'.id.trans h.id, h'.email.trans h.email, h'.createdAt.trans h.createdAt, fun ha =>
    h'.admin (h.admin ha)⟩

/-- No account goes away. -/
def Outlives (users users' : UserTable) : Prop :=
  ∀ row ∈ users.rows, ∃ row' ∈ users'.rows, row.SameAccount row'

theorem Outlives.refl (users : UserTable) : Outlives users users := fun row h => ⟨row, h, .refl row⟩

theorem Outlives.trans {users'' : UserTable} (h : Outlives users users')
    (h' : Outlives users' users'') : Outlives users users'' := by
  intro row hrow
  obtain ⟨row', hrow', hsame⟩ := h row hrow
  obtain ⟨row'', hrow'', hsame'⟩ := h' row' hrow'
  exact ⟨row'', hrow'', hsame.trans hsame'⟩

/-- An account is added, or one is changed that stays the same account, under the locks of `ls`. -/
inductive Change (users : UserTable) : List UserLock → UserTable → Prop where
  | nothing : Change users [] users
  | insert (user : User) : users.find? user.id = none → byEmail users user.email = none →
      Change users [.user user.id, .email user.email] (users.insert user)
  | modify (id : Uuid) (f : User → User) (hf : ∀ row : User, row.SameAccount (f row)) :
      Change users [.user id] (users.modify id f fun row => (hf row).id)

namespace Change

variable {ls : List UserLock}

/-- A row after the change: one from before, or the one that was made. -/
theorem mem (h : Change users ls users') {row' : User} (hrow : row' ∈ users'.rows) :
    row' ∈ users.rows ∨ (.user row'.id ∈ ls ∧
      ((byEmail users row'.email = none ∧ .email row'.email ∈ ls) ∨
      ∃ row ∈ users.rows, row.SameAccount row')) := by
  cases h with
  | nothing => exact .inl hrow
  | insert user hid hemail =>
    rw [Table.rows_insert hid, List.mem_append, List.mem_singleton] at hrow
    rcases hrow with hrow | rfl
    · exact .inl hrow
    · exact .inr ⟨List.mem_cons_self, .inl ⟨hemail,
        List.mem_cons_of_mem _ (List.mem_singleton_self _)⟩⟩
  | modify id f hf =>
    obtain ⟨row, hmem, heq⟩ := Table.mem_modify.mp hrow
    split at heq
    · rename_i hid
      subst heq
      refine .inr ⟨?_, .inr ⟨row, hmem, hf row⟩⟩
      rw [(hf row).id, hid]
      exact List.mem_singleton_self _
    · exact .inl (heq ▸ hmem)

theorem outlives (h : Change users ls users') : Outlives users users' := by
  intro row hrow
  cases h with
  | nothing => exact ⟨row, hrow, .refl row⟩
  | insert user hid hemail =>
    refine ⟨row, ?_, .refl row⟩
    rw [Table.rows_insert hid]
    exact List.mem_append_left _ hrow
  | modify id f hf =>
    refine ⟨if row.id = id then f row else row, Table.mem_modify.mpr ⟨row, hrow, rfl⟩, ?_⟩
    split
    · exact hf row
    · exact .refl row

theorem distinct (h : Change users ls users') (hd : Distinct users) : Distinct users' := by
  cases h with
  | nothing => exact hd
  | insert user hid hemail =>
    have hnew : ∀ row ∈ users.rows, row.email ≠ user.email := byEmail_eq_none.mp hemail
    intro row hrow row' hrow' heq
    rw [Table.rows_insert hid, List.mem_append, List.mem_singleton] at hrow hrow'
    rcases hrow with hrow | rfl
    · rcases hrow' with hrow' | rfl
      · exact hd row hrow row' hrow' heq
      · exact absurd heq (hnew row hrow)
    · rcases hrow' with hrow' | rfl
      · exact absurd heq.symm (hnew row' hrow')
      · rfl
  | modify id f hf =>
    have hemail : ∀ row : User, (if row.id = id then f row else row).email = row.email := by
      intro row
      split
      · exact (hf row).email
      · rfl
    intro row hrow row' hrow' heq
    obtain ⟨old, hold, rfl⟩ := Table.mem_modify.mp hrow
    obtain ⟨old', hold', rfl⟩ := Table.mem_modify.mp hrow'
    rw [hemail, hemail] at heq
    rw [hd old hold old' hold' heq]

theorem find?_eq (h : Change users ls users') (hk : .user k ∉ ls) :
    users'.find? k = users.find? k := by
  cases h with
  | nothing => rfl
  | insert user hid hemail =>
    rw [Table.find?_insert hid, if_neg]
    rintro rfl
    exact hk List.mem_cons_self
  | modify id f hf =>
    rw [Table.find?_modify, if_neg]
    rintro rfl
    exact hk (List.mem_singleton_self _)

theorem byEmail_none (h : Change users ls users') (he : .email email ∉ ls)
    (hnone : byEmail users email = none) : byEmail users' email = none := by
  rw [byEmail_eq_none] at hnone ⊢
  intro row' hrow' heq
  rcases h.mem hrow' with hrow | ⟨-, ⟨-, hmem⟩ | ⟨row, hrow, hsame⟩⟩
  · exact hnone row' hrow heq
  · exact he (heq ▸ hmem)
  · exact hnone row hrow (hsame.email.symm.trans heq)

end Change

/-! ## Calls -/

variable {K : Security} {s s' s'' : AuthState} {p q : Pid}

/-- Everything a call can come to. -/
inductive AuthEffect (K : Security) (p : Pid) (s : AuthState) :
    (o : AuthOp) → Except AuthExc o.Ret → AuthState → Prop where
  | now (t : Datetime) : (t - s.clock).natAbs ≤ K.skew → AuthEffect K p s .now (.ok t) s
  | uuid4 (u : Uuid) : s.uuidOwner u = none →
      AuthEffect K p s .uuid4 (.ok u) { s with uuidOwner := Function.update s.uuidOwner u (some p) }
  | salt (n : Nat) : AuthEffect K p s .salt (.ok n) s
  | aenter : AuthEffect K p s .aenter (.ok ()) s
  | selectByEmail (email : String) :
      AuthEffect K p s (.selectByEmail email) (.ok (byEmail (s.view p) email)) s
  | selectById (id : Uuid) : AuthEffect K p s (.selectById id) (.ok ((s.view p).find? id)) s
  | noneForUpdate (email : String) : byEmail (s.view p) email = none →
      AuthEffect K p s (.selectByEmailForUpdate email) (.ok none) s
  | someForUpdate (email : String) (user : User) : byEmail (s.view p) email = some user →
      s.free p (.user user.id) = true →
      AuthEffect K p s (.selectByEmailForUpdate email) (.ok (some user)) (s.lock p [.user user.id])
  | violated (user : User) (orig : IntegrityError) :
      AuthState.violated (s.view p) user = some orig →
      AuthEffect K p s (.insertUser user) (.error (.integrity orig)) s
  | inserted (user : User) : AuthState.violated (s.view p) user = none →
      (∀ l ∈ (UserStmt.insert user).locks, s.free p l = true) →
      AuthEffect K p s (.insertUser user) (.ok ()) (s.stage p (.insert user))
  | updated (id : Uuid) (passwordHash : String) (updatedAt : Datetime) :
      s.free p (.user id) = true →
      AuthEffect K p s (.updateAdmin id passwordHash updatedAt) (.ok ())
        (s.stage p (.updateAdmin id passwordHash updatedAt))
  | committed (r : Except AuthExc Unit) : (r = .ok () ∨ ∃ text, r = .error (.database text)) →
      AuthEffect K p s .commit r ((s.install (s.view p)).release p)
  | left (raised : Bool) (r : Except AuthExc Unit) :
      (r = .ok () ∨ ∃ text, r = .error (.database text)) →
      AuthEffect K p s (.aexit raised) r (s.release p)
  | encoded (userId : Uuid) (role : UserRole) (issuedAt : Datetime) (jti : Uuid) :
      AuthEffect K p s (.encode userId role issuedAt jti)
        (.ok (Issued.token K ⟨p, s.clock, userId, role, issuedAt, jti⟩))
        { s with issued := ⟨p, s.clock, userId, role, issuedAt, jti⟩ :: s.issued }
  | raised {o : AuthOp} (text : String) : AuthEffect K p s o (.error (.database text)) s

theorem AuthState.answer_effect {o : AuthOp} {r : Except AuthExc o.Ret}
    (h : s.answer p o = some (r, s')) : AuthEffect K p s o r s' := by
  cases o with
  | aenter =>
    cases h
    exact .aenter
  | selectByEmail email =>
    cases h
    exact .selectByEmail email
  | selectById id =>
    cases h
    exact .selectById id
  | selectByEmailForUpdate email =>
    simp only [answer] at h
    split at h
    · rename_i hnone
      cases h
      exact .noneForUpdate email hnone
    · rename_i user hsome
      split at h
      · rename_i hfree
        cases h
        exact .someForUpdate email user hsome hfree
      · cases h
  | insertUser user =>
    simp only [answer] at h
    split at h
    · rename_i orig hviolated
      cases h
      exact .violated user orig hviolated
    · rename_i hok
      split at h
      · rename_i hfree
        cases h
        exact .inserted user hok (List.all_eq_true.mp hfree)
      · cases h
  | updateAdmin id passwordHash updatedAt =>
    simp only [answer] at h
    split at h
    · rename_i hfree
      cases h
      exact .updated id passwordHash updatedAt hfree
    · cases h
  | commit =>
    cases h
    exact .committed _ (.inl rfl)
  | aexit raised =>
    cases h
    exact .left raised _ (.inl rfl)
  | now => cases h
  | uuid4 => cases h
  | salt => cases h
  | encode userId role issuedAt jti => cases h

theorem AuthState.fail_effect {o : AuthOp} {r : Except AuthExc o.Ret} {text : String}
    (h : s.fail p text o = some (r, s')) : AuthEffect K p s o r s' := by
  cases o with
  | aexit raised =>
    cases h
    exact .left raised _ (.inr ⟨text, rfl⟩)
  | selectByEmail email =>
    cases h
    exact .raised text
  | selectById id =>
    cases h
    exact .raised text
  | selectByEmailForUpdate email =>
    cases h
    exact .raised text
  | insertUser user =>
    cases h
    exact .raised text
  | updateAdmin id passwordHash updatedAt =>
    cases h
    exact .raised text
  | commit =>
    cases h
    exact .raised text
  | _ => cases h

theorem AuthState.exec_effect {o : AuthOp} {c : AuthChoice} {r : Except AuthExc o.Ret}
    (h : s.exec p K o c = some (r, s')) : AuthEffect K p s o r s' := by
  cases c with
  | answer =>
    cases o with
    | encode userId role issuedAt jti =>
      cases h
      exact .encoded userId role issuedAt jti
    | _ => exact answer_effect h
  | fails text =>
    have hf : s.fail p text o = some (r, s') := by cases o <;> exact h
    exact fail_effect hf
  | failsAfter text =>
    cases o with
    | commit =>
      cases h
      exact .committed _ (.inr ⟨text, rfl⟩)
    | _ => cases h
  | time t =>
    cases o with
    | now =>
      simp only [exec] at h
      split at h
      · rename_i hread
        cases h
        exact .now t hread
      · cases h
    | _ => cases h
  | uuid u =>
    cases o with
    | uuid4 =>
      simp only [exec] at h
      split at h
      · rename_i hfree
        cases h
        exact .uuid4 u hfree
      · cases h
    | _ => cases h
  | salt n =>
    cases o with
    | salt =>
      cases h
      exact .salt n
    | _ => cases h

/-! ## What is owed -/

/-- `p` makes the account of this address an administrator's. -/
def Promotes (K : Security) (s : AuthState) (p : Pid) (email : String) : Prop :=
  ∃ address password, s.calls p = some (.createOrUpdateAdmin address password) ∧
    K.normalizeEmail address = email

/-- Addresses are normalized, and administrators were made ones by `p`. -/
structure User.GroundedBy (K : Security) (s : AuthState) (p : Pid) (row : User) : Prop where
  normalized : ∃ address, K.normalizeEmail address = row.email
  admin : row.role = .admin → Promotes K s p row.email

/-- The same, whoever it was. -/
structure User.Grounded (K : Security) (s : AuthState) (row : User) : Prop where
  normalized : ∃ address, K.normalizeEmail address = row.email
  admin : row.role = .admin → ∃ q, Promotes K s q row.email

/-- The ground on which `p` makes a statement. -/
def UserStmt.Entitled (K : Security) (s : AuthState) (p : Pid) : UserStmt → Prop
  | .insert user => s.users.find? user.id = none ∧ byEmail s.users user.email = none ∧
      user.GroundedBy K s p
  | .updateAdmin id _ _ => ∃ row ∈ s.users.rows, row.id = id ∧ Promotes K s p row.email

/-- What a token was issued on: a login with the password of the account, which was active. -/
structure Issued.Vouched (K : Security) (s : AuthState) (t : Issued) : Prop where
  login : ∃ address password row, s.calls t.pid = some (.login address password) ∧
    row ∈ s.since t.pid ∧
    row.id = t.userId ∧ row.role = t.role ∧ row.email = K.normalizeEmail address ∧
    K.verify password row.passwordHash = true ∧ row.isActive = true
  issuedAt : t.issuedAt ≤ t.clock + K.skew
  read : s.started t.pid ≤ t.issuedAt + K.skew
  epoch : 0 ≤ t.clock
  clock : t.clock ≤ s.clock

/-- What `p` must have established before a call. -/
def AuthPre (K : Security) (p : Pid) : AuthOp → AuthState → Prop
  | .selectByEmail _, s | .selectById _, s | .selectByEmailForUpdate _, s => s.staged p = []
  | .insertUser user, s => s.staged p = [] ∧ user.GroundedBy K s p
  | .updateAdmin id _ _, s => s.staged p = [] ∧ ∃ row ∈ s.users.rows, row.id = id ∧
      Promotes K s p row.email
  | .encode userId role issuedAt jti, s => Issued.Vouched K s ⟨p, s.clock, userId, role,
      issuedAt, jti⟩
  | _, _ => True

/-- What holds between any two steps. -/
structure AuthInv (K : Security) (s : AuthState) : Prop where
  distinct : Distinct s.users
  grounded : ∀ row ∈ s.users.rows, row.Grounded K s
  single : ∀ q, s.staged q = [] ∨ ∃ st, s.staged q = [st]
  locked : ∀ {q : Pid} {st : UserStmt}, st ∈ s.staged q → ∀ l ∈ st.locks, s.locks l = some q
  staged : ∀ {q : Pid} {st : UserStmt}, st ∈ s.staged q → st.Entitled K s q
  known : ∀ {q : Pid}, ∀ v ∈ s.since q, ∃ row ∈ s.users.rows, v.SameAccount row
  opened : ∀ {q : Pid}, ∀ v ∈ s.opened q, v ∈ s.since q
  current : ∀ {q : Pid}, s.calls q ≠ none → ∀ row ∈ s.users.rows, row ∈ s.since q
  started : ∀ {q : Pid}, s.calls q ≠ none → s.started q ≤ s.clock
  epoch : 0 ≤ s.clock
  issued : ∀ t ∈ s.issued, t.Vouched K s

/-- What no step takes back. -/
structure AuthState.Extends (s s' : AuthState) : Prop where
  calls : ∀ {q : Pid} {c : AuthCall}, s.calls q = some c → s'.calls q = some c
  uuids : ∀ {u : Uuid} {q : Pid}, s.uuidOwner u = some q → s'.uuidOwner u = some q
  clock : s.clock ≤ s'.clock
  started : ∀ {q : Pid}, s.calls q ≠ none → s'.started q = s.started q
  opened : ∀ {q : Pid}, s.calls q ≠ none → s'.opened q = s.opened q
  since : ∀ {q : Pid}, s.calls q ≠ none → ∀ v ∈ s.since q, v ∈ s'.since q
  outlives : Outlives s.users s'.users
  issued : ∀ t ∈ s.issued, t ∈ s'.issued

/-- What process `p` may assume of what the others did. -/
structure AuthRely (p : Pid) (s s' : AuthState) : Prop extends s.Extends s' where
  staged : s'.staged p = s.staged p
  locks : ∀ l, s'.locks l = some p ↔ s.locks l = some p
  row : ∀ {k : Uuid}, s.locks (.user k) = some p → s'.users.find? k = s.users.find? k

namespace AuthState.Extends

theorem refl (s : AuthState) : s.Extends s :=
  ⟨id, id, le_rfl, fun _ => rfl, fun _ => rfl, fun _ _ h => h, .refl _, fun _ h => h⟩

theorem calls_ne (h : s.Extends s') (hq : s.calls q ≠ none) : s'.calls q ≠ none := by
  obtain ⟨c, hc⟩ := Option.ne_none_iff_exists'.mp hq
  rw [h.calls hc]
  exact Option.some_ne_none c

theorem trans (h : s.Extends s') (h' : s'.Extends s'') : s.Extends s'' where
  calls hc := h'.calls (h.calls hc)
  uuids hu := h'.uuids (h.uuids hu)
  clock := h.clock.trans h'.clock
  started hq := (h'.started (h.calls_ne hq)).trans (h.started hq)
  opened hq := (h'.opened (h.calls_ne hq)).trans (h.opened hq)
  since hq v hv := h'.since (h.calls_ne hq) v (h.since hq v hv)
  outlives := h.outlives.trans h'.outlives
  issued t ht := h'.issued t (h.issued t ht)

end AuthState.Extends

theorem AuthRely.refl (p : Pid) (s : AuthState) : AuthRely p s s :=
  ⟨.refl s, rfl, fun _ => Iff.rfl, fun _ => rfl⟩

theorem AuthRely.trans (h : AuthRely p s s') (h' : AuthRely p s' s'') : AuthRely p s s'' where
  toExtends := h.toExtends.trans h'.toExtends
  staged := h'.staged.trans h.staged
  locks l := (h'.locks l).trans (h.locks l)
  row hk := (h'.row ((h.locks _).mpr hk)).trans (h.row hk)

/-! ## Grounds last -/

theorem Promotes.mono (h : Promotes K s p email) (he : s.Extends s') : Promotes K s' p email := by
  obtain ⟨address, password, hc, hn⟩ := h
  exact ⟨address, password, he.calls hc, hn⟩

theorem User.GroundedBy.mono {row : User} (h : row.GroundedBy K s p) (he : s.Extends s') :
    row.GroundedBy K s' p := ⟨h.normalized, fun ha => (h.admin ha).mono he⟩

theorem User.Grounded.mono {row : User} (h : row.Grounded K s) (he : s.Extends s') :
    row.Grounded K s' := by
  refine ⟨h.normalized, fun ha => ?_⟩
  obtain ⟨q, hq⟩ := h.admin ha
  exact ⟨q, hq.mono he⟩

theorem User.GroundedBy.grounded {row : User} (h : row.GroundedBy K s p) : row.Grounded K s :=
  ⟨h.normalized, fun ha => ⟨p, h.admin ha⟩⟩

theorem Issued.Vouched.mono {t : Issued} (h : t.Vouched K s) (he : s.Extends s') :
    t.Vouched K s' := by
  obtain ⟨address, password, row, hc, hrow, hrest⟩ := h.login
  have hne : s.calls t.pid ≠ none := by
    rw [hc]
    exact Option.some_ne_none _
  refine ⟨⟨address, password, row, he.calls hc, he.since hne row hrow, hrest⟩, h.issuedAt, ?_,
    h.epoch, h.clock.trans he.clock⟩
  rw [he.started hne]
  exact h.read

/-- A statement keeps its ground as long as nobody else touches what it locks. -/
theorem UserStmt.Entitled.mono {st : UserStmt} (h : st.Entitled K s p) (he : s.Extends s')
    (hrow : ∀ k, .user k ∈ st.locks → s'.users.find? k = s.users.find? k)
    (hemail : ∀ e, .email e ∈ st.locks → byEmail s.users e = none → byEmail s'.users e = none) :
    st.Entitled K s' p := by
  cases st with
  | insert user =>
    obtain ⟨hid, hnone, hground⟩ := h
    exact ⟨(hrow _ List.mem_cons_self).trans hid,
      hemail _ (List.mem_cons_of_mem _ (List.mem_singleton_self _)) hnone, hground.mono he⟩
  | updateAdmin id passwordHash updatedAt =>
    obtain ⟨row, hmem, hid, hp⟩ := h
    obtain ⟨row', hmem', hsame⟩ := he.outlives row hmem
    refine ⟨row', hmem', hsame.id.trans hid, ?_⟩
    rw [hsame.email]
    exact hp.mono he

theorem setAdmin_same (passwordHash : String) (updatedAt : Datetime) (row : User) :
    row.SameAccount (setAdmin passwordHash updatedAt row) := ⟨rfl, rfl, rfl, fun _ => rfl⟩

theorem setActive_same (isActive : Bool) (row : User) : row.SameAccount (setActive isActive row) :=
  ⟨rfl, rfl, rfl, fun h => h⟩

theorem UserStmt.Entitled.change {st : UserStmt} (h : st.Entitled K s p) :
    Change s.users st.locks (st.apply s.users) := by
  cases st with
  | insert user => exact .insert user h.1 h.2.1
  | updateAdmin id passwordHash updatedAt => exact .modify id _ (setAdmin_same passwordHash updatedAt)

theorem UserStmt.Entitled.grounded {st : UserStmt} (h : st.Entitled K s p) (hinv : AuthInv K s) :
    ∀ row' ∈ (st.apply s.users).rows, row'.Grounded K s := by
  intro row' hrow'
  cases st with
  | insert user =>
    obtain ⟨hid, -, hground⟩ := h
    rw [apply, Table.rows_insert hid, List.mem_append, List.mem_singleton] at hrow'
    rcases hrow' with hrow' | rfl
    · exact hinv.grounded row' hrow'
    · exact hground.grounded
  | updateAdmin id passwordHash updatedAt =>
    obtain ⟨row, hmem, hid, hp⟩ := h
    rw [apply, Table.mem_modify] at hrow'
    obtain ⟨old, hold, heq⟩ := hrow'
    split at heq
    · rename_i hold_id
      have hsame : old = row := Table.eq_of_key_eq hold hmem (hold_id.trans hid.symm)
      subst heq hsame
      exact ⟨(hinv.grounded old hold).normalized, fun _ => ⟨p, hp⟩⟩
    · exact heq ▸ hinv.grounded old hold

/-! ## That every call keeps it -/

/-- A step that leaves the rows, the transactions and the processes as they are. -/
theorem AuthInv.of_same (h : AuthInv K s) (he : s.Extends s') (husers : s'.users = s.users)
    (hstaged : s'.staged = s.staged) (hlocks : s'.locks = s.locks) (hcalls : s'.calls = s.calls)
    (hopened : s'.opened = s.opened) (hsince : s'.since = s.since)
    (hissued : ∀ t ∈ s'.issued, t ∈ s.issued ∨ t.Vouched K s') : AuthInv K s' where
  distinct := husers ▸ h.distinct
  grounded row hrow := (h.grounded row (husers ▸ hrow)).mono he
  single q := hstaged ▸ h.single q
  locked {q st} hst l hl := by
    rw [hstaged] at hst
    rw [hlocks]
    exact h.locked hst l hl
  staged {q st} hst := by
    rw [hstaged] at hst
    exact (h.staged hst).mono he (fun _ _ => by rw [husers])
      fun _ _ hnone => by rw [husers]; exact hnone
  known {q} v hv := by
    rw [hsince] at hv
    rw [husers]
    exact h.known v hv
  opened {q} v hv := by
    rw [hopened] at hv
    rw [hsince]
    exact h.opened v hv
  current {q} hq row hrow := by
    rw [hcalls] at hq
    rw [husers] at hrow
    rw [hsince]
    exact h.current hq row hrow
  started {q} hq := by
    rw [hcalls] at hq
    rw [he.started hq]
    exact (h.started hq).trans he.clock
  epoch := h.epoch.trans he.clock
  issued t ht := (hissued t ht).elim (fun hold => (h.issued t hold).mono he) id

theorem AuthState.Extends.release (s : AuthState) (p : Pid) : s.Extends (s.release p) :=
  ⟨id, id, le_rfl, fun _ => rfl, fun _ => rfl, fun _ _ h => h, .refl _, fun _ h => h⟩

/-- The same of a state in which `p` has let go of its transaction. -/
theorem AuthInv.release (h : AuthInv K s) (p : Pid) : AuthInv K (s.release p) where
  distinct := h.distinct
  grounded row hrow := (h.grounded row hrow).mono (.release s p)
  single q := by
    by_cases hq : q = p
    · exact .inl (hq ▸ Function.update_self ..)
    · simp only [AuthState.release, Function.update_of_ne hq]
      exact h.single q
  locked {q st} hst l hl := by
    by_cases hq : q = p
    · subst hq
      simp [AuthState.release] at hst
    · simp only [AuthState.release, Function.update_of_ne hq] at hst
      have hlock := h.locked hst l hl
      simp only [AuthState.release]
      rw [if_neg, hlock]
      rw [hlock]
      exact fun heq => hq (Option.some.inj heq)
  staged {q st} hst := by
    by_cases hq : q = p
    · subst hq
      simp [AuthState.release] at hst
    · simp only [AuthState.release, Function.update_of_ne hq] at hst
      exact (h.staged hst).mono (.release s p) (fun _ _ => rfl) fun _ _ hnone => hnone
  known := h.known
  opened := h.opened
  current := h.current
  started := h.started
  epoch := h.epoch
  issued t ht := (h.issued t ht).mono (.release s p)

/-- Rows change where nobody has locked them. -/
theorem AuthState.Extends.install {ls : List UserLock} (hc : Change s.users ls users') :
    s.Extends (s.install users') :=
  ⟨id, id, le_rfl, fun _ => rfl, fun _ => rfl, fun _ _ hv =>
    List.mem_append_right _ hv, hc.outlives,
    fun _ h => h⟩

theorem AuthInv.install (h : AuthInv K s) {ls : List UserLock} (hc : Change s.users ls users')
    (hfree : ∀ l ∈ ls, s.locks l = none) (hground : ∀ row ∈ users'.rows, row.Grounded K s) :
    AuthInv K (s.install users') where
  distinct := hc.distinct h.distinct
  grounded row hrow := (hground row hrow).mono (.install hc)
  single := h.single
  locked := h.locked
  staged {q st} hst := by
    have hapart : ∀ l ∈ st.locks, l ∉ ls := by
      intro l hl hmem
      have hlock := h.locked hst l hl
      rw [hfree l hmem] at hlock
      cases hlock
    exact (h.staged hst).mono (.install hc) (fun k hk => hc.find?_eq (hapart _ hk))
      fun e he hnone => hc.byEmail_none (hapart _ he) hnone
  known {q} v hv := by
    rcases List.mem_append.mp hv with hv | hv
    · exact ⟨v, hv, .refl v⟩
    · obtain ⟨row, hrow, hsame⟩ := h.known v hv
      obtain ⟨row', hrow', hsame'⟩ := hc.outlives row hrow
      exact ⟨row', hrow', hsame.trans hsame'⟩
  opened {q} v hv := List.mem_append_right _ (h.opened v hv)
  current _ _ hrow := List.mem_append_left _ hrow
  started := h.started
  epoch := h.epoch
  issued t ht := (h.issued t ht).mono (.install hc)

/-- What `p` staged is what its commit does. -/
theorem AuthInv.view_change (h : AuthInv K s) (p : Pid) : ∃ ls, Change s.users ls (s.view p) ∧
    (∀ l ∈ ls, s.locks l = some p) ∧ ∀ row ∈ (s.view p).rows, row.Grounded K s := by
  rcases h.single p with hst | ⟨st, hst⟩
  · have hview : s.view p = s.users := by
      rw [AuthState.view, hst]
      rfl
    rw [hview]
    exact ⟨[], .nothing, fun l hl => absurd hl List.not_mem_nil, h.grounded⟩
  · have hview : s.view p = st.apply s.users := by
      rw [AuthState.view, hst]
      rfl
    have hmem : st ∈ s.staged p := hst ▸ List.mem_singleton_self _
    rw [hview]
    exact ⟨st.locks, (h.staged hmem).change, h.locked hmem, (h.staged hmem).grounded h⟩

theorem AuthState.release_lock {l : UserLock} (hl : s.locks l = some p) :
    (s.release p).locks l = none :=
  if_pos hl

theorem AuthState.release_lock_other (hq : q ≠ p) {l : UserLock} :
    (s.release p).locks l = some q ↔ s.locks l = some q := by
  simp only [release]
  by_cases hl : s.locks l = some p
  · rw [if_pos hl, hl]
    exact ⟨fun h => (by cases h), fun h => absurd (Option.some.inj h).symm hq⟩
  · rw [if_neg hl]

theorem AuthRely.release (hq : q ≠ p) : AuthRely q s (s.release p) where
  toExtends := .release s p
  staged := Function.update_of_ne hq ..
  locks _ := AuthState.release_lock_other hq
  row _ := rfl

theorem AuthRely.install {ls : List UserLock} (hc : Change s.users ls users')
    (hfree : ∀ l ∈ ls, s.locks l = none) : AuthRely q s (s.install users') where
  toExtends := .install hc
  staged := rfl
  locks _ := Iff.rfl
  row hk := hc.find?_eq fun hmem => by
    rw [hfree _ hmem] at hk
    cases hk

/-- A commit: its own rows are let go of, and then they change. -/
theorem AuthInv.commit (h : AuthInv K s) (p : Pid) : AuthInv K ((s.install (s.view p)).release p) ∧
    s.Extends ((s.install (s.view p)).release p) ∧
    ∀ q, q ≠ p → AuthRely q s ((s.install (s.view p)).release p) := by
  have hcomm : (s.install (s.view p)).release p = (s.release p).install (s.view p) := rfl
  have hrel : s.Extends (s.release p) := .release s p
  rw [hcomm]
  obtain ⟨ls, hc, hlocks, hground⟩ := h.view_change p
  have hc' : Change (s.release p).users ls (s.view p) := hc
  have hfree : ∀ l ∈ ls, (s.release p).locks l = none := fun l hl =>
    AuthState.release_lock (hlocks l hl)
  exact ⟨(h.release p).install hc' hfree fun row hrow => (hground row hrow).mono hrel,
    hrel.trans (.install hc'), fun q hq => (AuthRely.release hq).trans (.install hc' hfree)⟩

theorem AuthState.Extends.lock (s : AuthState) (p : Pid) (ls : List UserLock) :
    s.Extends (s.lock p ls) :=
  ⟨id, id, le_rfl, fun _ => rfl, fun _ => rfl, fun _ _ h => h, .refl _, fun _ h => h⟩

theorem AuthState.lock_other {ls : List UserLock} (hfree : ∀ l ∈ ls, s.free p l = true) (hq : q ≠ p)
    {l : UserLock} : (s.lock p ls).locks l = some q ↔ s.locks l = some q := by
  simp only [lock]
  by_cases hl : l ∈ ls
  · rw [if_pos hl]
    have hheld := hfree l hl
    simp only [free, Bool.or_eq_true, beq_iff_eq] at hheld
    constructor
    · intro h
      exact absurd (Option.some.inj h).symm hq
    · intro h
      rw [h] at hheld
      rcases hheld with hheld | hheld
      · cases hheld
      · exact absurd (Option.some.inj hheld) hq
  · rw [if_neg hl]

/-- Free rows are locked. -/
theorem AuthInv.lock (h : AuthInv K s) {ls : List UserLock} (hfree : ∀ l ∈ ls, s.free p l = true) :
    AuthInv K (s.lock p ls) where
  distinct := h.distinct
  grounded row hrow := (h.grounded row hrow).mono (.lock s p ls)
  single := h.single
  locked {q st} hst l hl := by
    have hlock := h.locked hst l hl
    by_cases hq : q = p
    · subst hq
      simp only [AuthState.lock]
      split
      · rfl
      · exact hlock
    · exact (AuthState.lock_other hfree hq).mpr hlock
  staged hst := (h.staged hst).mono (.lock s p ls) (fun _ _ => rfl) fun _ _ hnone => hnone
  known := h.known
  opened := h.opened
  current := h.current
  started := h.started
  epoch := h.epoch
  issued t ht := (h.issued t ht).mono (.lock s p ls)

theorem AuthRely.lock {ls : List UserLock} (hfree : ∀ l ∈ ls, s.free p l = true) (hq : q ≠ p) :
    AuthRely q s (s.lock p ls) where
  toExtends := .lock s p ls
  staged := rfl
  locks _ := AuthState.lock_other hfree hq
  row _ := rfl

theorem AuthState.Extends.stage (s : AuthState) (p : Pid) (st : UserStmt) :
    s.Extends (s.stage p st) :=
  ⟨id, id, le_rfl, fun _ => rfl, fun _ => rfl, fun _ _ h => h, .refl _, fun _ h => h⟩

theorem AuthState.staged_stage {st : UserStmt} (hnone : s.staged p = []) :
    (s.stage p st).staged p = [st] := by
  simp [stage, hnone]

theorem AuthState.staged_stage_other {st : UserStmt} (hq : q ≠ p) :
    (s.stage p st).staged q = s.staged q :=
  Function.update_of_ne hq ..

/-- The one statement of a transaction. -/
theorem AuthInv.stage (h : AuthInv K s) {st : UserStmt} (hfree : ∀ l ∈ st.locks, s.free p l = true)
    (hnone : s.staged p = []) (hst : st.Entitled K s p) : AuthInv K (s.stage p st) where
  distinct := h.distinct
  grounded row hrow := (h.grounded row hrow).mono (.stage s p st)
  single q := by
    by_cases hq : q = p
    · subst hq
      exact .inr ⟨st, AuthState.staged_stage hnone⟩
    · rw [AuthState.staged_stage_other hq]
      exact h.single q
  locked {q st'} hst' l hl := by
    by_cases hq : q = p
    · subst hq
      rw [AuthState.staged_stage hnone, List.mem_singleton] at hst'
      subst hst'
      exact if_pos hl
    · rw [AuthState.staged_stage_other hq] at hst'
      exact (AuthState.lock_other hfree hq).mpr (h.locked hst' l hl)
  staged {q st'} hst' := by
    have hold : st'.Entitled K s q := by
      by_cases hq : q = p
      · subst hq
        rw [AuthState.staged_stage hnone, List.mem_singleton] at hst'
        exact hst' ▸ hst
      · rw [AuthState.staged_stage_other hq] at hst'
        exact h.staged hst'
    exact hold.mono (.stage s p st) (fun _ _ => rfl) fun _ _ hnone => hnone
  known := h.known
  opened := h.opened
  current := h.current
  started := h.started
  epoch := h.epoch
  issued t ht := (h.issued t ht).mono (.stage s p st)

theorem AuthRely.stage {st : UserStmt} (hfree : ∀ l ∈ st.locks, s.free p l = true) (hq : q ≠ p) :
    AuthRely q s (s.stage p st) where
  toExtends := .stage s p st
  staged := Function.update_of_ne hq ..
  locks _ := AuthState.lock_other hfree hq
  row _ := rfl

theorem AuthState.violated_eq_none {user : User} (h : violated users user = none) :
    users.find? user.id = none ∧ byEmail users user.email = none := by
  unfold violated at h
  split at h
  · cases h
  · rename_i hemail
    split at h
    · cases h
    · rename_i hid
      exact ⟨by simpa using hid, by simpa using hemail⟩

theorem AuthState.view_of_nil (h : s.staged p = []) : s.view p = s.users := by
  rw [view, h]
  rfl

/-- **Every call keeps the contract.** -/
theorem AuthInv.call (h : AuthInv K s) {o : AuthOp} {r : Except AuthExc o.Ret}
    (hpre : AuthPre K p o s)
    (he : AuthEffect K p s o r s') : AuthInv K s' ∧ s.Extends s' ∧ ∀ q, q ≠ p →
    AuthRely q s s' := by
  cases he with
  | uuid4 u hu =>
    have hext : s.Extends { s with uuidOwner := Function.update s.uuidOwner u (some p) } := by
      refine ⟨id, fun {v q} hv => ?_, le_rfl, fun _ => rfl, fun _ => rfl, fun _ _ h => h, .refl _,
        fun _ h => h⟩
      have hne : v ≠ u := by
        rintro rfl
        rw [hu] at hv
        cases hv
      exact (Function.update_of_ne hne ..).trans hv
    exact ⟨h.of_same hext rfl rfl rfl rfl rfl rfl fun t ht => .inl ht, hext,
      fun q _ => ⟨hext, rfl, fun _ => Iff.rfl, fun _ => rfl⟩⟩
  | someForUpdate email user hsome hfree =>
    have hfree' : ∀ l ∈ [UserLock.user user.id], s.free p l = true := fun l hl => by
      rw [List.mem_singleton.mp hl]
      exact hfree
    exact ⟨h.lock hfree', .lock .., fun q hq => .lock hfree' hq⟩
  | inserted user hok hfree =>
    rw [AuthState.view_of_nil hpre.1] at hok
    obtain ⟨hid, hemail⟩ := AuthState.violated_eq_none hok
    exact ⟨h.stage hfree hpre.1 ⟨hid, hemail, hpre.2⟩, .stage .., fun q hq => .stage hfree hq⟩
  | updated id passwordHash updatedAt hfree =>
    have hfree' : ∀ l ∈ (UserStmt.updateAdmin id passwordHash updatedAt).locks,
        s.free p l = true := by
      intro l hl
      rw [List.mem_singleton.mp hl]
      exact hfree
    exact ⟨h.stage hfree' hpre.1 hpre.2, .stage .., fun q hq => .stage hfree' hq⟩
  | committed r hr => exact h.commit p
  | left raised r hr => exact ⟨h.release p, .release s p, fun q hq => .release hq⟩
  | encoded userId role issuedAt jti =>
    have hext : s.Extends { s with issued := ⟨p, s.clock, userId, role, issuedAt, jti⟩ :: s.issued
        } :=
      ⟨id, id, le_rfl, fun _ => rfl, fun _ => rfl, fun _ _ h => h, .refl _,
        fun _ h => List.mem_cons_of_mem _ h⟩
    refine ⟨h.of_same hext rfl rfl rfl rfl rfl rfl fun t ht => ?_, hext,
      fun q _ => ⟨hext, rfl, fun _ => Iff.rfl, fun _ => rfl⟩⟩
    rcases List.mem_cons.mp ht with rfl | ht
    · exact .inr (Issued.Vouched.mono hpre hext)
    · exact .inl ht
  | _ => exact ⟨h, .refl s, fun q _ => .refl q s⟩

theorem AuthInv.env (h : AuthInv K s) {e : AuthEnv} (he : s.env e = some s') :
    AuthInv K s' ∧ ∀ q, AuthRely q s s' := by
  cases e with
  | tick d =>
    cases he
    have hext : s.Extends { s with clock := s.clock + d } :=
      ⟨id, id, Int.le_add_of_nonneg_right (Int.natCast_nonneg d), fun _ => rfl, fun _ =>
        rfl, fun _ _ h => h,
        .refl _, fun _ h => h⟩
    exact ⟨h.of_same hext rfl rfl rfl rfl rfl rfl fun t ht => .inl ht,
      fun q => ⟨hext, rfl, fun _ => Iff.rfl, fun _ => rfl⟩⟩
  | setActive id isActive =>
    simp only [AuthState.env] at he
    split at he
    · rename_i hnone
      cases he
      have hc : Change s.users [.user id] (s.users.modify id (setActive isActive)
          (setActive_id isActive)) :=
        .modify id _ (setActive_same isActive)
      have hfree : ∀ l ∈ [UserLock.user id], s.locks l = none := fun l hl => by
        rw [List.mem_singleton.mp hl]
        exact hnone
      refine ⟨h.install hc hfree fun row' hrow' => ?_, fun q => .install hc hfree⟩
      obtain ⟨row, hrow, heq⟩ := Table.mem_modify.mp hrow'
      have hg := h.grounded row hrow
      split at heq
      · exact heq ▸ ⟨hg.normalized, hg.admin⟩
      · exact heq ▸ hg
    · cases he

/-- A process number that was free. -/
theorem AuthState.Extends.launched (hnone : s.calls p = none) (c : AuthCall) :
    (s.release p).Extends (s.launch p c) := by
  have hne : ∀ {q : Pid}, s.calls q ≠ none → q ≠ p := by
    rintro q hq rfl
    exact hq hnone
  refine ⟨fun {q c'} hc => ?_, fun h => h, le_rfl, fun hq => Function.update_of_ne (hne hq) ..,
    fun hq => Function.update_of_ne (hne hq) .., fun {q} hq v hv => ?_, .refl _, fun _ h => h⟩
  · have hq : s.calls q ≠ none := Option.ne_none_iff_exists'.mpr ⟨c', hc⟩
    exact (Function.update_of_ne (hne hq) ..).trans hc
  · have hsame : (s.launch p c).since q = s.since q := Function.update_of_ne (hne hq) ..
    rw [hsame]
    exact hv

theorem AuthState.Extends.launch (hnone : s.calls p = none) (c : AuthCall) :
    s.Extends (s.launch p c) :=
  (Extends.release s p).trans (.launched hnone c)

theorem AuthInv.launch (h : AuthInv K s) (hnone : s.calls p = none) (c : AuthCall) :
    AuthInv K (s.launch p c) where
  distinct := h.distinct
  grounded row hrow := (h.grounded row hrow).mono (.launch hnone c)
  single := (h.release p).single
  locked := (h.release p).locked
  staged hst := ((h.release p).staged hst).mono (.launched hnone c) (fun _ _ =>
    rfl) fun _ _ hnone => hnone
  known {q} v hv := by
    by_cases hq : q = p
    · simp only [AuthState.launch, hq, Function.update_self] at hv
      exact ⟨v, hv, .refl v⟩
    · simp only [AuthState.launch, Function.update_of_ne hq] at hv
      exact h.known v hv
  opened {q} v hv := by
    by_cases hq : q = p
    · simp only [AuthState.launch, hq, Function.update_self] at hv ⊢
      exact hv
    · simp only [AuthState.launch, Function.update_of_ne hq] at hv ⊢
      exact h.opened v hv
  current {q} hcall row hrow := by
    by_cases hq : q = p
    · simp only [AuthState.launch, hq, Function.update_self]
      exact hrow
    · simp only [AuthState.launch, Function.update_of_ne hq] at hcall ⊢
      exact h.current hcall row hrow
  started {q} hcall := by
    by_cases hq : q = p
    · simp only [AuthState.launch, hq, Function.update_self]
      exact le_rfl
    · simp only [AuthState.launch, Function.update_of_ne hq] at hcall ⊢
      exact h.started hcall
  epoch := h.epoch
  issued t ht := (h.issued t ht).mono (.launch hnone c)

theorem AuthRely.launch (hnone : s.calls p = none) (c : AuthCall) (hq : q ≠ p) :
    AuthRely q s (s.launch p c) where
  toExtends := .launch hnone c
  staged := Function.update_of_ne hq ..
  locks _ := AuthState.release_lock_other hq
  row _ := rfl

theorem AuthState.start_cases {c : AuthCall} (h : s.start p c = some s') :
    s.calls p = none ∧ s' = s.launch p c := by
  unfold start at h
  split at h
  · rename_i hnone
    exact ⟨hnone, (Option.some.inj h).symm⟩
  · cases h

/-- The contract of the accounts. -/
def authContract (K : Security) : Protocol (authMachine K) where
  inv := AuthInv K
  rely := AuthRely
  pre := AuthPre K
  may _ _ _ _ := True
  rely_refl := .refl
  rely_trans := .trans
  step_ok hinv hpre _ he :=
    have hcall := hinv.call hpre (AuthState.exec_effect he)
    ⟨hcall.1, hcall.2.2⟩
  env_ok hinv he := hinv.env he
  crash_ok {p _} hinv := ⟨hinv.release p, fun _ hq => .release hq⟩
  start_ok {p c _ _} hinv hs := by
    obtain ⟨hnone, rfl⟩ := AuthState.start_cases hs
    exact ⟨hinv.launch hnone c, fun q hq => .launch hnone c hq⟩

end CloudJob
