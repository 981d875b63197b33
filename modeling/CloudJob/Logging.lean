import Mathlib.Data.List.Infix
import Mathlib.Data.String.Basic

/-!
# `Logging.lean` — `JsonLogFormatter` and what it redacts

`app/core/logging.py`. A logged value is built of dicts, lists, tuples, sets and everything else,
which is a scalar here. The elements of a set stand in the order it is iterated in. What `str()`
makes of a key and what `lower()` makes of a text is left open. -/

set_option autoImplicit false

namespace CloudJob

def SENSITIVE_LOG_KEYS : List String :=
  ["password", "token", "authorization", "jwt", "secret", "database_url", "redis_url",
    "rabbitmq_url"]

/-! ## Values -/

inductive LogScalar where
  | none
  | bool (b : Bool)
  | int (n : Int)
  | float (text : String)
  | str (text : String)
  | object (text : String)
deriving DecidableEq, Repr

/-- What `isinstance(value, (list, tuple, set, frozenset))` goes through. -/
inductive LogSequence where
  | list
  | tuple
  | set
  | frozenset
deriving DecidableEq, Repr

/-- A value whose dicts have keys of `κ`. -/
inductive LogValue (κ : Type) where
  | scalar (a : LogScalar)
  | dict (members : List (κ × LogValue κ))
  | sequence (kind : LogSequence) (items : List (LogValue κ))

/-- The keys of a dict, as texts. A key that is a `str` is its own text. -/
structure LogKeys (κ : Type) where
  ofStr : String → κ
  str : κ → String
  str_ofStr : ∀ text, str (ofStr text) = text
  /-- `str.lower`. -/
  lower : String → String

section Sanitize

variable {κ : Type} (K : LogKeys κ)

/-- `_is_sensitive_key`. -/
def isSensitiveKey (key : String) : Bool :=
  SENSITIVE_LOG_KEYS.any fun sensitiveKey => decide (sensitiveKey.toList <:+: (K.lower key).toList)

def REDACTED : LogValue κ := .scalar (.str "[REDACTED]")

mutual

/-- `_sanitize_log_value`. -/
def sanitizeLogValue (value : LogValue κ) (key : Option String) : LogValue κ :=
  if key.any (isSensitiveKey K) then REDACTED
  else match value with
    | .dict members => .dict (sanitizeMembers members)
    | .sequence _ items => .sequence .list (sanitizeItems items)
    | .scalar a => .scalar a

def sanitizeMembers : List (κ × LogValue κ) → List (κ × LogValue κ)
  | [] => []
  | (nestedKey, nestedValue) :: rest =>
      (nestedKey, sanitizeLogValue nestedValue (some (K.str nestedKey))) :: sanitizeMembers rest

def sanitizeItems : List (LogValue κ) → List (LogValue κ)
  | [] => []
  | item :: rest => sanitizeLogValue item none :: sanitizeItems rest

end

/-! ## Records -/

/-- The attributes of a record that `logging` puts there itself, as `format` lists them. -/
def RECORD_ATTRIBUTES : List String :=
  ["args", "created", "exc_info", "exc_text", "filename", "funcName", "levelname", "levelno",
    "lineno", "module",
    "msecs", "message", "msg", "name", "pathname", "process", "processName",
    "relativeCreated", "stack_info", "thread", "threadName", "taskName", "request_id"]

/-- A record: its `__dict__`, and what its methods and its `exc_info` give. -/
structure LogRecord (κ : Type) where
  attributes : List (String × LogValue κ)
  levelname : String
  name : String
  message : String
  requestId : LogValue κ
  exception : Option String

variable {K}

/-- The extras of a record. -/
def LogRecord.extras (record : LogRecord κ) : List (String × LogValue κ) :=
  record.attributes.filter fun entry => entry.1 ∉ RECORD_ATTRIBUTES

variable (K)

/-- A `dict` with these attributes. -/
def ofAttributes (attributes : List (String × LogValue κ)) : LogValue κ :=
  .dict (attributes.map fun entry => (K.ofStr entry.1, entry.2))

/-- The `extra` member of the payload. -/
def LogRecord.extra (record : LogRecord κ) : Option (LogValue κ) :=
  if record.extras.isEmpty then none else some
    (sanitizeLogValue K (ofAttributes K record.extras) none)

/-- The payload of `JsonLogFormatter.format`, at `timestamp`. -/
def LogRecord.payload (record : LogRecord κ) (timestamp : String) : LogValue κ :=
  ofAttributes K ([("timestamp", .scalar (.str timestamp)),
    ("level", .scalar (.str record.levelname)),
      ("logger", .scalar (.str record.name)), ("message", .scalar (.str record.message)),
      ("request_id", record.requestId)] ++
    ((record.extra K).map fun extra => ("extra", extra)).toList ++
    (record.exception.map fun text => ("exception", .scalar (.str text))).toList)

/-- `JsonLogFormatter.format`; `dumps` is `json.dumps`, where it does not raise. -/
def LogRecord.format (dumps : LogValue κ → Option String) (record : LogRecord κ)
    (timestamp : String) : Option String :=
  dumps (record.payload K timestamp)

end Sanitize

end CloudJob
