import ColumnDecl.Record

/-! The response to a query: its columns, its records, and the bytes that came with it. The bytes
have one position, so that what was read is not piped again. After it is closed a response
keeps its columns and its summary and refuses everything else. -/
namespace ColumnDecl

structure Summary where
  readRows : Int
  readBytes : Int
  writtenRows : Int
  writtenBytes : Int
  totalRowsToRead : Int
  deriving DecidableEq, Repr

def Summary.empty : Summary := ⟨0, 0, 0, 0, 0⟩

abbrev Bytes := List UInt8

/-- A response with records; `unread` holds the bytes not handed out yet. -/
structure Listing where
  columns : List Column
  records : List Record
  unread : Option Bytes
  summary : Summary
  closed : Bool
  deriving Repr

inductive Response where
  | empty
  | listed (l : Listing)
  deriving Repr

inductive Refusal where
  | closed | noRecords | bytesClosed
  deriving DecidableEq, Repr

def Refusal.message : Refusal → String
  | closed => "Response is closed"
  | noRecords => "Response has no records"
  | bytesClosed => "I/O operation on closed file."

namespace Buffer

def defaultSize : Int := 8192

def maxSize : Int := 1024 * 1024

/-- A size that was asked for, or the default when none or no positive one was, up to the
maximum. -/
def size (asked : Option Int) (default maximum : Int) : Int :=
  match asked with
  | some n => if n ≤ 0 then min default maximum else min n maximum
  | none => min default maximum

/-- The bytes in chunks of `size`, of which the last can be shorter; `done` holds earlier chunks,
last one first. -/
def chunksOnto (size : Nat) (done : List Bytes) (bytes : Bytes) : List Bytes :=
  if _h : size = 0 ∨ bytes = [] then done.reverse
  else chunksOnto size (bytes.take size :: done) (bytes.drop size)
termination_by bytes.length
decreasing_by
  have := List.length_pos_iff.mpr (fun e => _h (.inr e))
  rw [List.length_drop]
  omega

def chunks (size : Nat) (bytes : Bytes) : List Bytes := chunksOnto size [] bytes

/-- How many bytes the chunks hold together. -/
def total : List Bytes → Nat
  | [] => 0
  | chunk :: chunks => chunk.length + total chunks

end Buffer

namespace Response

def rows (columns : List Column) : List (List Value) → Except WidthMismatch (List Record)
  | [] => .ok []
  | row :: rest => do
    let record ← Record.ofRow columns row
    let records ← rows columns rest
    .ok (record :: records)

/-- A response over decoded rows. Without a summary the rows and the bytes are counted. -/
def ofRows (columns : List Column) (data : List (List Value)) (payload : Option Bytes)
    (summary : Option Summary) : Except WidthMismatch Response := do
  let records ← rows columns data
  let counted : Summary :=
    { Summary.empty with readRows := records.length, readBytes := (payload.getD []).length }
  .ok (.listed ⟨columns, records, payload, summary.getD counted, false⟩)

def columns : Response → List Column
  | empty => []
  | listed l => l.columns

def summary : Response → Summary
  | empty => .empty
  | listed l => l.summary

/-- The empty response is shared and never closed. -/
def isClosed : Response → Bool
  | empty => false
  | listed l => l.closed

def close : Response → Response
  | empty => empty
  | listed l => listed { l with closed := true }

def records : Response → Except Refusal (List Record)
  | empty => .ok []
  | listed l => if l.closed then .error .closed else .ok l.records

def firstRecord (r : Response) : Except Refusal Record := do
  match ← r.records with
  | [] => .error .noRecords
  | record :: _ => .ok record

def hasBytes : Response → Except Refusal Bool
  | empty => .ok false
  | listed l => if l.closed then .error .closed else .ok l.unread.isSome

/-- Up to `size` bytes; all of them when no size, or a negative one, is given. -/
def read (size : Option Int) : Response → Except Refusal (Bytes × Response)
  | empty => .ok ([], empty)
  | listed l =>
    match l.unread with
    | none => .ok ([], listed l)
    | some bytes =>
      if l.closed then .error .bytesClosed
      else
        let n := match size with
          | some n => if n < 0 then bytes.length else n.toNat
          | none => bytes.length
        .ok (bytes.take n, listed { l with unread := some (bytes.drop n) })

/-- All bytes not handed out yet, in chunks of the buffer size. -/
def pipe (size : Option Int) : Response → Except Refusal (List Bytes × Response)
  | empty => .ok ([], empty)
  | listed l =>
    if l.closed then .error .closed
    else match l.unread with
      | none => .ok ([], listed l)
      | some bytes =>
        let n := (Buffer.size size Buffer.defaultSize Buffer.maxSize).toNat
        .ok (Buffer.chunks n bytes, listed { l with unread := some [] })

end Response
end ColumnDecl
