/-
# Transact.Rehearsal.Report -- what the steps of a rehearsal answer

A report is a value without floats.  `render` writes it on one line without blanks, the fields of a
record in order of their names, so one value has one text.
-/
import Transact.Bytes
import Transact.Error
import Transact.Text.Quoted

namespace Transact.Rehearsal

set_option autoImplicit false

inductive Report where
  | null
  | flag (on : Bool)
  | number (n : Int)
  | text (s : String)
  | list (items : List Report)
  | record (fields : List (String × Report))

namespace Report

/-! ## Building -/

def nat (n : Nat) : Report := .number n

/-- Bytes are shown in hexadecimal. -/
def bytes (b : Bytes) : Report := .text b.hex

def optional {α : Type} (f : α → Report) : Option α → Report
  | none => .null
  | some a => f a

def texts (items : List String) : Report := .list (items.map .text)

/-! ## Errors -/

def kindName : ErrorKind → String
  | .resourceBusy => "ResourceBusy"
  | .validationConflict => "ValidationConflict"
  | .moduleInternalError => "ModuleInternalError"
  | .decodingError => "DecodingError"
  | .invalidOperation => "InvalidOperation"
  | .notFound => "NotFound"
  | .invalidConfig => "InvalidConfig"
  | .ioError => "IOError"
  | .eventError => "EventError"
  | .internalError => "InternalError"

/-- A fault, with the report of the one behind it. -/
def ofFault (f : Fault) (cause : Option Report) : Report :=
  .record
    ([("error", .text (kindName f.kind)), ("message", .text f.message),
      ("code", .number (f.osCode.getD f.kind.code))]
      ++ (match f.osCode with
        | some code => [("os_code", .number code)]
        | none => [])
      ++ (match cause with
        | some report => [("cause", report)]
        | none => []))

/-- The causes of an error, each inside the one before it. -/
def ofCauses : List Fault → Option Report
  | [] => none
  | f :: rest => some (ofFault f (ofCauses rest))

def ofError (e : Error) : Report := ofFault e.toFault (ofCauses e.causes)

/-- The rehearsal itself cannot do what was asked. -/
def complaint (message : String) : Report :=
  .record [("error", .text "BadInput"), ("message", .text message)]

/-- The rehearsal came down in the middle. -/
def downfall (message : String) : Report :=
  .record [("error", .text "panic"), ("message", .text message)]

/-- Nothing to report, or the error. -/
def ofUnit : Except Error Unit → Report
  | .ok () => .null
  | .error e => ofError e

/-! ## Text -/

/-- Four hexadecimal digits. -/
def hex4 (n : Nat) : String :=
  String.ofList [Bytes.hexDigit (n / 4096 % 16), Bytes.hexDigit (n / 256 % 16),
    Bytes.hexDigit (n / 16 % 16), Bytes.hexDigit (n % 16)]

/-- How a character stands inside a text. -/
def escape (c : Char) : String :=
  if c = '"' then "\\\""
  else if c = '\\' then "\\\\"
  else if c = '\n' then "\\n"
  else if c = '\r' then "\\r"
  else if c = '\t' then "\\t"
  else if c = '\x08' then "\\b"
  else if c = '\x0c' then "\\f"
  else if c.toNat < 32 then "\\u" ++ hex4 c.toNat
  else c.toString

def quote (s : String) : String := "\"" ++ String.join (s.toList.map escape) ++ "\""

/-- Put a field in its place by its name. -/
def insertField (field : String × String) : List (String × String) → List (String × String)
  | [] => [field]
  | other :: rest =>
      if field.1 < other.1 then field :: other :: rest else other :: insertField field rest

/-- The fields of a record between braces, in order of their names. -/
def braced (fields : List (String × String)) : String :=
  let ordered := fields.foldl (fun acc field => insertField field acc) []
  "\x7b" ++ String.intercalate "," (ordered.map fun field => quote field.1 ++ ":" ++ field.2)
    ++ "\x7d"

mutual

def render : Report → String
  | .null => "null"
  | .flag on => if on then "true" else "false"
  | .number n => toString n
  | .text s => quote s
  | .list items => "[" ++ String.intercalate "," (renderItems items) ++ "]"
  | .record fields => braced (renderFields fields)

def renderItems : List Report → List String
  | [] => []
  | item :: rest => render item :: renderItems rest

def renderFields : List (String × Report) → List (String × String)
  | [] => []
  | (name, value) :: rest => (name, render value) :: renderFields rest

end

end Report

end Transact.Rehearsal
