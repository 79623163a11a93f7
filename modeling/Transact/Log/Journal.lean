/-
# Transact.Log.Journal -- log records as lines of text

A line is `domain operation resource payload`, with single spaces between.  The payload is base64,
or `-` when there is none.  Only the resource may hold spaces, so a line is read by cutting the
first two fields from the left and the payload from the right.
-/
import Transact.Domain
import Transact.Log
import Transact.Text.Base64

namespace Transact

set_option autoImplicit false

/-- A record as text; every field is free of its meaning. -/
structure JournalLine where
  module : String
  op : String
  resource : String
  payload : Bytes
  deriving DecidableEq

namespace JournalLine

open Text

def of (domain : Domain) (op : String) (resource : ResourceId) (payload : Bytes) : JournalLine :=
  { module := domain.render, op, resource := resource.render, payload }

/-- The field that stands for no payload. -/
def emptyPayload : String := "-"

def payloadText (payload : Bytes) : String :=
  if payload = [] then emptyPayload else Base64.encode payload

def render (line : JournalLine) : String :=
  line.module ++ " " ++ line.op ++ " " ++ line.resource ++ " " ++ payloadText line.payload

/-! ## Reading -/

/-- What stands before and after the first space. -/
def cutFirst : List Char → Option (List Char × List Char)
  | [] => none
  | c :: rest =>
      if c = ' ' then some ([], rest)
      else (cutFirst rest).map fun parts => (c :: parts.1, parts.2)

/-- What stands before and after the last space. -/
def cutLast : List Char → Option (List Char × List Char)
  | [] => none
  | c :: rest =>
      match cutLast rest with
      | some parts => some (c :: parts.1, parts.2)
      | none => if c = ' ' then some ([], rest) else none

/-- The four fields of a line; the first two must not be empty. -/
def fields? (line : String) : Option (String × String × String × String) := do
  let (module, rest) ← cutFirst line.toList
  let (op, rest) ← cutFirst rest
  let (resource, payload) ← cutLast rest
  if module = [] || op = [] then none
  else some (String.ofList module, String.ofList op, String.ofList resource, String.ofList payload)

/-- A line that lacks a field. -/
def malformed (line : String) : Error :=
  .of .decodingError ("Malformed journal line: " ++ quoted line)

def parsePayload (text : String) : Except Error Bytes :=
  if text = emptyPayload then .ok [] else Base64.decode text

def parse (line : String) : Except Error JournalLine :=
  match fields? line with
  | none => .error (malformed line)
  | some (module, op, resource, payload) =>
      match parsePayload payload with
      | .error e => .error e
      | .ok bytes => .ok { module, op, resource, payload := bytes }

end JournalLine

/-- Every record of a log as a line.  `describe` names the operation of a payload and the bytes it
carries. -/
def DeferredLog.journal {P : Type} (log : DeferredLog P) (domain : Domain)
    (describe : P → String × Bytes) : List String :=
  log.records.map fun r =>
    let (op, bytes) := describe r.payload
    (JournalLine.of domain op r.resource bytes).render

end Transact
