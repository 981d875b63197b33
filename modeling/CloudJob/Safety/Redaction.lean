import CloudJob.Logging

/-!
# `Safety/Redaction.lean` — what a log line says of what it was given

Two values that are the same but for what is stored under sensitive keys are the same once they are
sanitized, and everything that is not stored under one is still where it was. Both by induction over
the value: `SameButHidden` goes down it as `_sanitize_log_value` does. -/

set_option autoImplicit false

namespace CloudJob

section Redaction

variable {κ : Type} {K : LogKeys κ}

/-- A key of a dict whose value is redacted. -/
def LogKeys.Hides (K : LogKeys κ) (key : κ) : Prop := isSensitiveKey K (K.str key) = true

/-! ## Two values -/

mutual

/-- The values differ only in what is stored, at any depth, under keys that hide it. -/
inductive SameButHidden (K : LogKeys κ) : LogValue κ → LogValue κ → Prop
  | scalar (a : LogScalar) : SameButHidden K (.scalar a) (.scalar a)
  | dict {members members' : List (κ × LogValue κ)} : MembersSame K members members' →
      SameButHidden K (.dict members) (.dict members')
  | sequence (kind : LogSequence) {items items' : List (LogValue κ)} : ItemsSame K items items' →
      SameButHidden K (.sequence kind items) (.sequence kind items')

inductive MembersSame (K : LogKeys κ) : List (κ × LogValue κ) → List (κ × LogValue κ) → Prop
  | nil : MembersSame K [] []
  | hidden {key : κ} {rest rest' : List (κ × LogValue κ)} (x y : LogValue κ) : K.Hides key →
      MembersSame K rest rest' → MembersSame K ((key, x) :: rest) ((key, y) :: rest')
  | shown {x y : LogValue κ} {rest rest' : List (κ × LogValue κ)} (key : κ) : SameButHidden K x y →
      MembersSame K rest rest' → MembersSame K ((key, x) :: rest) ((key, y) :: rest')

inductive ItemsSame (K : LogKeys κ) : List (LogValue κ) → List (LogValue κ) → Prop
  | nil : ItemsSame K [] []
  | cons {x y : LogValue κ} {rest rest' : List (LogValue κ)} : SameButHidden K x y →
      ItemsSame K rest rest' → ItemsSame K (x :: rest) (y :: rest')

end

theorem sanitizeLogValue_dict (members : List (κ × LogValue κ)) (key : Option String) :
    sanitizeLogValue K (.dict members) key =
      if key.any (isSensitiveKey K) then REDACTED else .dict (sanitizeMembers K members) := by
  rw [sanitizeLogValue]

theorem sanitizeLogValue_sequence (kind : LogSequence) (items : List (LogValue κ))
    (key : Option String) : sanitizeLogValue K (.sequence kind items) key =
      if key.any (isSensitiveKey K) then REDACTED else .sequence .list (sanitizeItems K items) := by
  rw [sanitizeLogValue]

/-- Below a key that hides it, a value is gone. -/
theorem sanitizeLogValue_hidden {key : κ} (h : K.Hides key) (value : LogValue κ) :
    sanitizeLogValue K value (some (K.str key)) = REDACTED := by
  unfold sanitizeLogValue
  rw [if_pos]
  exact h

/-- Below any other key it is sanitized as it would be anywhere. -/
theorem sanitizeLogValue_shown {key : κ} (h : ¬ K.Hides key) (value : LogValue κ) :
    sanitizeLogValue K value (some (K.str key)) = sanitizeLogValue K value none := by
  unfold sanitizeLogValue
  rw [if_neg, if_neg]
  · exact Bool.false_ne_true
  · exact h

mutual

/-- **Nothing of what is hidden shows.** -/
theorem SameButHidden.sanitize {x y : LogValue κ} (h : SameButHidden K x y) (key : Option String) :
    sanitizeLogValue K x key = sanitizeLogValue K y key := by
  cases h with
  | scalar a => rfl
  | dict hmembers => rw [sanitizeLogValue_dict, sanitizeLogValue_dict, hmembers.sanitize]
  | sequence kind hitems => rw [sanitizeLogValue_sequence, sanitizeLogValue_sequence,
      hitems.sanitize]

theorem MembersSame.sanitize {members members' : List (κ × LogValue κ)}
    (h : MembersSame K members members') :
    sanitizeMembers K members = sanitizeMembers K members' := by
  cases h with
  | nil => rfl
  | hidden x y hkey hrest =>
    unfold sanitizeMembers
    rw [sanitizeLogValue_hidden hkey, sanitizeLogValue_hidden hkey, hrest.sanitize]
  | shown key hvalue hrest =>
    unfold sanitizeMembers
    rw [hvalue.sanitize, hrest.sanitize]

theorem ItemsSame.sanitize {items items' : List (LogValue κ)} (h : ItemsSame K items items') :
    sanitizeItems K items = sanitizeItems K items' := by
  cases h with
  | nil => rfl
  | cons hvalue hrest =>
    unfold sanitizeItems
    rw [hvalue.sanitize, hrest.sanitize]

end

/-! ## Positions -/

/-- One step down into a value. -/
inductive LogStep (κ : Type) where
  | key (key : κ)
  | index (i : Nat)

/-- What is at a position. -/
def LogValue.at [DecidableEq κ] : LogValue κ → List (LogStep κ) → Option (LogValue κ)
  | value, [] => some value
  | .dict members, .key key :: path => (members.find? fun member => member.1 = key).bind
      fun member =>
      member.2.at path
  | .sequence _ items, .index i :: path => items[i]?.bind fun item => item.at path
  | _, _ :: _ => none

theorem find?_sanitizeMembers [DecidableEq κ] (members : List (κ × LogValue κ)) (key : κ) :
    (sanitizeMembers K members).find? (fun member => member.1 = key) =
      (members.find? fun member => member.1 = key).map fun member =>
        (member.1, sanitizeLogValue K member.2 (some (K.str member.1))) := by
  induction members with
  | nil => rfl
  | cons member rest ih =>
    obtain ⟨nestedKey, nestedValue⟩ := member
    unfold sanitizeMembers
    rw [List.find?_cons, List.find?_cons]
    by_cases heq : nestedKey = key
    · simp [heq]
    · simp [heq, ih]

theorem getElem?_sanitizeItems (items : List (LogValue κ)) (i : Nat) :
    (sanitizeItems K items)[i]? = items[i]?.map fun item => sanitizeLogValue K item none := by
  induction items generalizing i with
  | nil => rfl
  | cons item rest ih =>
    unfold sanitizeItems
    cases i with
    | zero => rfl
    | succ i => exact ih i

/-- Down a path of keys that hide nothing, the sanitized value is that of the value there. -/
theorem LogValue.at_sanitize [DecidableEq κ] {path : List (LogStep κ)}
    (hpath : ∀ key, LogStep.key key ∈ path → ¬ K.Hides key) {value found : LogValue κ}
    (h : value.at path = some found) :
    (sanitizeLogValue K value none).at path = some (sanitizeLogValue K found none) := by
  induction path generalizing value with
  | nil =>
    rw [LogValue.at] at h
    cases h
    rw [LogValue.at]
  | cons step path ih =>
    have hrest : ∀ key, LogStep.key key ∈ path → ¬ K.Hides key :=
      fun key hkey => hpath key (List.mem_cons_of_mem _ hkey)
    cases step with
    | key key =>
      cases value with
      | dict members =>
        obtain ⟨member, hmember, hbelow⟩ := Option.bind_eq_some_iff.mp h
        have hkey : member.1 = key := by simpa using List.find?_some hmember
        have hshown : ¬ K.Hides member.1 := hkey ▸ hpath key List.mem_cons_self
        show ((sanitizeMembers K members).find? _).bind _ = _
        rw [find?_sanitizeMembers, hmember, Option.map_some, Option.bind_some,
          sanitizeLogValue_shown hshown]
        exact ih hrest hbelow
      | scalar a => cases h
      | sequence kind items => cases h
    | index i =>
      cases value with
      | sequence kind items =>
        obtain ⟨item, hitem, hbelow⟩ := Option.bind_eq_some_iff.mp h
        show ((sanitizeItems K items)[i]?).bind _ = _
        rw [getElem?_sanitizeItems, hitem, Option.map_some, Option.bind_some]
        exact ih hrest hbelow
      | scalar a => cases h
      | dict members => cases h

/-- And right below a key that hides it there is the mark, and nothing under it. -/
theorem LogValue.at_sanitize_hidden [DecidableEq κ] {path : List (LogStep κ)}
    (hpath : ∀ key, LogStep.key key ∈ path → ¬ K.Hides key) {value : LogValue κ}
    {members : List (κ × LogValue κ)} (h : value.at path = some (.dict members)) {key : κ}
    (hkey : K.Hides key) : ∀ {x : LogValue κ}, (LogValue.dict members).at [.key key] = some x →
      ∃ members', (sanitizeLogValue K value none).at path = some (.dict members') ∧
        (LogValue.dict members').at [.key key] = some REDACTED := by
  intro x hx
  refine ⟨sanitizeMembers K members, LogValue.at_sanitize hpath h, ?_⟩
  obtain ⟨member, hmember, -⟩ := Option.bind_eq_some_iff.mp hx
  have hname : member.1 = key := by simpa using List.find?_some hmember
  show ((sanitizeMembers K members).find? _).bind _ = _
  rw [find?_sanitizeMembers, hmember, Option.map_some, Option.bind_some,
    sanitizeLogValue_hidden (hname ▸ hkey)]
  rfl

/-! ## Records -/

/-- Two records with the same attributes but for what a sensitive name hides. -/
def LogRecord.SameButHidden (K : LogKeys κ) (record record' : LogRecord κ) : Prop :=
  CloudJob.SameButHidden K (ofAttributes K record.attributes) (ofAttributes K record'.attributes)

/-- Choosing members by their keys. -/
theorem MembersSame.filter {members members' : List (κ × LogValue κ)}
    (h : MembersSame K members members') (keep : κ → Bool) :
    MembersSame K (members.filter fun member => keep member.1) (members'.filter fun member =>
      keep member.1) := by
  induction members generalizing members' with
  | nil =>
    cases h
    exact .nil
  | cons member rest ih =>
    cases h with
    | hidden x y hkey hrest =>
      rw [List.filter_cons, List.filter_cons]
      split
      · exact .hidden x y hkey (ih hrest)
      · exact ih hrest
    | shown key hvalue hrest =>
      rw [List.filter_cons, List.filter_cons]
      split
      · exact .shown key hvalue (ih hrest)
      · exact ih hrest

theorem MembersSame.isEmpty {members members' : List (κ × LogValue κ)}
    (h : MembersSame K members members') : members.isEmpty = members'.isEmpty := by
  cases h <;> rfl

/-- The extras of a record, as members of a dict. -/
theorem ofAttributes_extras (record : LogRecord κ) :
    ofAttributes K record.extras = .dict ((record.attributes.map fun entry =>
      (K.ofStr entry.1, entry.2)).filter fun member => K.str member.1 ∉ RECORD_ATTRIBUTES) := by
  unfold ofAttributes LogRecord.extras
  rw [List.filter_map]
  congr 2
  refine List.filter_congr fun entry _ => ?_
  simp only [Function.comp_apply, K.str_ofStr]

theorem LogRecord.SameButHidden.extra {record record' : LogRecord κ}
    (h : record.SameButHidden K record') : record.extra K = record'.extra K := by
  have hsame : CloudJob.SameButHidden K (ofAttributes K record.extras)
      (ofAttributes K record'.extras) := by
    rw [ofAttributes_extras, ofAttributes_extras]
    cases h with
    | dict hmembers => exact .dict (hmembers.filter fun key => K.str key ∉ RECORD_ATTRIBUTES)
  have hempty : record.extras.isEmpty = record'.extras.isEmpty := by
    unfold ofAttributes at hsame
    cases hsame with
    | dict hmembers => simpa only [List.isEmpty_map] using hmembers.isEmpty
  unfold LogRecord.extra
  rw [hempty, hsame.sanitize]

/-- **Redaction is complete and minimal.** Two values that differ only below keys that hide it are
the same once sanitized; what is below no such key is where it was; and so the `extra` of a log
line, and the whole line where the rest of the record is the same, say nothing of what is hidden. -/
theorem redaction_complete_and_minimal [DecidableEq κ] (K : LogKeys κ) :
    (∀ x y : LogValue κ, SameButHidden K x y →
      sanitizeLogValue K x none = sanitizeLogValue K y none) ∧
    (∀ (value : LogValue κ) (path : List (LogStep κ)) (a : LogScalar),
      value.at path = some (.scalar a) → (∀ key, LogStep.key key ∈ path → ¬ K.Hides key) →
        (sanitizeLogValue K value none).at path = some (.scalar a)) ∧
    ∀ record record' : LogRecord κ, record.SameButHidden K record' →
      record.extra K = record'.extra K ∧
      (record.levelname = record'.levelname → record.name = record'.name →
        record.message = record'.message →
        record.requestId = record'.requestId → record.exception = record'.exception →
        ∀ dumps timestamp, record.format K dumps timestamp = record'.format K dumps timestamp) := by
  refine ⟨fun x y h => h.sanitize none, fun value path a h hpath => ?_, fun record record' h =>
    ⟨h.extra, ?_⟩⟩
  · rw [LogValue.at_sanitize hpath h]
    unfold sanitizeLogValue
    rfl
  · intro hlevel hname hmessage hrequest hexception dumps timestamp
    unfold LogRecord.format LogRecord.payload
    rw [h.extra, hlevel, hname, hmessage, hrequest, hexception]

end Redaction

/-! ### A login that is logged -/

def textKeys : LogKeys String := ⟨id, id, fun _ => rfl, String.toLower⟩

/-- A request with its user and the headers it came with. -/
def loginExtra (password token : String) : LogValue String :=
  .dict [("user", .dict [("name", .scalar (.str "ada")), ("Password", .scalar (.str password))]),
    ("headers", .sequence .tuple [.dict [("X-Auth-Token",
      .sequence .list [.scalar (.str token)])]])]

/-- Neither secret shows, and the name does. -/
theorem redaction_of_login :
    sanitizeLogValue textKeys (loginExtra "hunter2" "t1") none =
        sanitizeLogValue textKeys (loginExtra "swordfish" "t2") none ∧
      (sanitizeLogValue textKeys (loginExtra "hunter2" "t1") none).at [.key "user", .key "name"] =
        some (.scalar (.str "ada")) := by
  obtain ⟨hcomplete, hminimal, -⟩ := redaction_complete_and_minimal textKeys
  refine ⟨hcomplete _ _ ?_, hminimal _ _ _ rfl ?_⟩
  · refine .dict (.shown _ (.dict (.shown _ (.scalar _) (.hidden _ _ ?_ .nil)))
      (.shown _ (.sequence _ (.cons
      (.dict (.hidden _ _ ?_ .nil)) .nil)) .nil))
    · show isSensitiveKey textKeys "Password" = true
      decide +kernel
    · show isSensitiveKey textKeys "X-Auth-Token" = true
      decide +kernel
  · intro key hkey
    simp only [List.mem_cons, LogStep.key.injEq, List.not_mem_nil, or_false] at hkey
    rcases hkey with rfl | rfl
    · show ¬ isSensitiveKey textKeys "user" = true
      decide +kernel
    · show ¬ isSensitiveKey textKeys "name" = true
      decide +kernel

end CloudJob
