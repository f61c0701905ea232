import ColumnDecl.Response

/-! Working with a response: calls in any order, and the record streams that were taken from it.
A stream is what it has still to give, so it goes on after the response is closed. -/
namespace ColumnDecl

structure Session where
  response : Response
  streams : List (List Record)
  deriving Repr

namespace Session

inductive Call where
  | columns | summary | records | firstRecord | stream | bytes | close | closed
  | next (stream : Nat)
  | read (size : Option Int)
  | pipe (size : Option Int)
  deriving DecidableEq, Repr

inductive Answer where
  | columns (cs : List Column)
  | summary (s : Summary)
  | records (rs : List Record)
  | record (r : Record)
  | streaming
  | row (r : Option Record)
  | present (b : Bool)
  | bytes (bs : Bytes)
  | chunks (cs : List Bytes)
  | closed (b : Bool)
  | refused (why : Refusal)
  deriving Repr

def start (r : Response) : Session := ⟨r, []⟩

def answer {α : Type} (f : α → Answer) : Except Refusal α → Answer
  | .ok a => f a
  | .error why => .refused why

/-- The answer of a call that hands out bytes, and the session behind it. -/
def moved {α : Type} (s : Session) (f : α → Answer) :
    Except Refusal (α × Response) → Answer × Session
  | .ok (a, r) => (f a, { s with response := r })
  | .error why => (.refused why, s)

def step (s : Session) : Call → Answer × Session
  | .columns => (.columns s.response.columns, s)
  | .summary => (.summary s.response.summary, s)
  | .records => (answer .records s.response.records, s)
  | .firstRecord => (answer .record s.response.firstRecord, s)
  | .stream =>
    match s.response.records with
    | .ok rs => (.streaming, { s with streams := s.streams ++ [rs] })
    | .error why => (.refused why, s)
  | .next i =>
    match s.streams[i]? with
    | some (r :: rest) => (.row (some r), { s with streams := s.streams.set i rest })
    | _ => (.row none, s)
  | .bytes => (answer .present s.response.hasBytes, s)
  | .read size => s.moved .bytes (s.response.read size)
  | .pipe size => s.moved .chunks (s.response.pipe size)
  | .close =>
    let r := s.response.close
    (.closed r.isClosed, { s with response := r })
  | .closed => (.closed s.response.isClosed, s)

def run (s : Session) : List Call → List Answer × Session
  | [] => ([], s)
  | c :: cs =>
    let now := s.step c
    let later := run now.2 cs
    (now.1 :: later.1, later.2)

end Session
end ColumnDecl
