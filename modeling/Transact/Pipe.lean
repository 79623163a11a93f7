/-
# Transact.Pipe -- a byte stream that can be read without being consumed

A pipe is a channel of the system with a buffer in front of it.  Bytes pulled from the channel wait
in the buffer until they are consumed; each has an offset in the stream, so several readers can look
at the same bytes and only a committed one takes them.  `front` is the offset of the first byte not
yet consumed.

How many bytes one pull takes is up to the system: `chunk n` is the size of pull number `n`, and at
least one and at most `chunkLimit` bytes come at a time.  A read of an empty channel whose writer is
open waits; here that is an answer of its own.
-/
import Transact.Bytes
import Transact.Error
import Transact.Resource.Id
import Transact.Table

namespace Transact

set_option autoImplicit false

structure Pipe where
  id : Nat
  /-- The offset of the first byte in the buffer. -/
  front : Nat := 0
  /-- Bytes pulled and not consumed. -/
  buffer : Bytes := []
  /-- The end of the stream was seen. -/
  ended : Bool := false
  /-- Bytes written and not pulled. -/
  channel : Bytes := []
  writerOpen : Bool := true
  /-- How many pulls there were. -/
  pulls : Nat := 0
  deriving DecidableEq

namespace Pipe

/-- The most bytes one pull takes. -/
def chunkLimit : Nat := 8192

/-- Every pull takes as much as it can. -/
def fullChunks : Nat → Nat := fun _ => chunkLimit

def readId (p : Pipe) : ResourceId := .pipeRead p.id

def writeId (p : Pipe) : ResourceId := .pipeWrite p.id

/-! ## Errors -/

def closedError (p : Pipe) : Error :=
  .of .invalidOperation ("Write end of pipe " ++ toString p.id ++ " is closed")

def consumedError (p : Pipe) (offset : Nat) : Error :=
  .of .validationConflict
    ("Bytes of pipe " ++ toString p.id ++ " at offset " ++ toString offset
      ++ " were consumed, stream is at " ++ toString p.front)

def shortError (p : Pipe) (requested : Nat) : Error :=
  .of .internalError
    ("Pipe " ++ toString p.id ++ " holds " ++ toString p.buffer.length ++ " buffered bytes, "
      ++ toString requested ++ " requested")

/-! ## Writing -/

def writeAll (p : Pipe) (bytes : Bytes) : Except Error Pipe :=
  if p.writerOpen then .ok { p with channel := p.channel ++ bytes } else .error p.closedError

def closeWriter (p : Pipe) : Pipe := { p with writerOpen := false }

/-! ## Reading -/

/-- The size of the next pull. -/
def nextChunk (chunk : Nat → Nat) (p : Pipe) : Nat :=
  max 1 (min (chunk p.pulls) chunkLimit)

/-- Pull once from the channel; `none` if that would wait. -/
def pull (chunk : Nat → Nat) (p : Pipe) : Option Pipe :=
  if p.channel = [] then
    if p.writerOpen then none else some { p with ended := true, pulls := p.pulls + 1 }
  else
    some { p with
      buffer := p.buffer ++ p.channel.take (p.nextChunk chunk)
      channel := p.channel.drop (p.nextChunk chunk)
      pulls := p.pulls + 1 }

/-- What a read came to. -/
inductive Reading where
  | bytes (content : Bytes)
  /-- Nothing is there yet and the writer is open. -/
  | waits
  | failed (e : Error)
  deriving DecidableEq

/-- Drop at most `n` bytes from the buffer. -/
def drain (p : Pipe) (n : Nat) : Pipe :=
  { p with buffer := p.buffer.drop n, front := p.front + min n p.buffer.length }

/-- Take at most `max` bytes from the front.  No bytes mean the end of the stream. -/
def read (chunk : Nat → Nat) (max : Nat) (p : Pipe) : Reading × Pipe :=
  if max = 0 then (.bytes [], p)
  else if p.buffer ≠ [] then (.bytes (p.buffer.take max), p.drain max)
  else if p.ended then (.bytes [], p)
  else
    match p.pull chunk with
    | none => (.waits, p)
    | some p => (.bytes (p.buffer.take max), p.drain max)

/-- Look at most `max` bytes from `offset` on, pulling less than `fuel` times. -/
def peekWithin (chunk : Nat → Nat) (offset max : Nat) : Nat → Pipe → Reading × Pipe
  | 0, p => (.waits, p)
  | fuel + 1, p =>
      if offset < p.front then (.failed (p.consumedError offset), p)
      else if max = 0 then (.bytes [], p)
      else if offset - p.front < p.buffer.length then
        (.bytes (p.buffer.slice (offset - p.front) max), p)
      else if p.ended then (.bytes [], p)
      else
        match p.pull chunk with
        | none => (.waits, p)
        | some p => peekWithin chunk offset max fuel p

/-- Look at most `max` bytes from `offset` on and leave them in place.  Each pull shortens the
channel or ends the stream, so there is at most one more pull than there are bytes. -/
def peekAt (chunk : Nat → Nat) (offset max : Nat) (p : Pipe) : Reading × Pipe :=
  peekWithin chunk offset max (p.channel.length + 2) p

/-- Consume `len` buffered bytes, which have to start at `offset`. -/
def consumeAt (p : Pipe) (offset len : Nat) : Except Error Pipe :=
  if p.front ≠ offset then .error (p.consumedError offset)
  else if p.buffer.length < len then .error (p.shortError len)
  else .ok { p with buffer := p.buffer.drop len, front := p.front + len }

/-- The debugging form of a pipe. -/
def render (p : Pipe) : String :=
  "PipePair \x7b id: " ++ toString p.id ++ ", front: " ++ toString p.front
    ++ ", buffered: " ++ toString p.buffer.length ++ " \x7d"

end Pipe

/-- The pipes that were opened, and which of them can be looked up. -/
structure PipeTable where
  pipes : Table Nat Pipe := {}
  registered : List Nat := []
  next : Nat := 0
  deriving DecidableEq

namespace PipeTable

def notRegistered (id : Nat) : Error :=
  .of .notFound ("Pipe " ++ toString id ++ " is not registered")

/-- Open a pipe; numbers are given in order. -/
def openPipe (t : PipeTable) : Nat × PipeTable :=
  (t.next,
    { pipes := t.pipes.set t.next { id := t.next }
      registered := t.registered ++ [t.next]
      next := t.next + 1 })

def get? (t : PipeTable) (id : Nat) : Option Pipe := t.pipes.get? id

def set (t : PipeTable) (p : Pipe) : PipeTable := { t with pipes := t.pipes.set p.id p }

def lookup (t : PipeTable) (id : Nat) : Except Error Pipe :=
  if t.registered.contains id then
    match t.get? id with
    | some p => .ok p
    | none => .error (notRegistered id)
  else .error (notRegistered id)

/-- Forget a pipe: it can no longer be looked up, and goes on where it is in use. -/
def forget (t : PipeTable) (id : Nat) : Bool × PipeTable :=
  (t.registered.contains id, { t with registered := t.registered.filter (· ≠ id) })

def count (t : PipeTable) : Nat := t.registered.length

end PipeTable

end Transact
