import ColumnDecl.Proofs.Response
import ColumnDecl.Session

/-! Sessions over any calls. A response keeps its columns, its records and its summary, and the first
close closes it; the bytes in an answer are those missing from then on. A stream gives up one record for
each call on it, whatever else is called. -/
namespace ColumnDecl.Session
open Response

/-- What the calls were answered, in their order. -/
def answers (s : Session) (calls : List Call) : List Answer := (s.run calls).1

/-- The session behind the calls. -/
def after (s : Session) (calls : List Call) : Session := (s.run calls).2

theorem afterCons (s : Session) (c : Call) (calls : List Call) :
    s.after (c :: calls) = (s.step c).2.after calls := rfl

theorem afterAppend (s : Session) (a b : List Call) : s.after (a ++ b) = (s.after a).after b := by
  induction a generalizing s with
  | nil => rfl
  | cons c a ih => exact ih (s.step c).2

/-- The bytes that an answer hands out. -/
def Answer.handed : Answer → Bytes
  | .bytes bs => bs
  | .chunks cs => cs.flatten
  | _ => []

/-- The bytes that the calls were handed, in their order. -/
def handed (s : Session) (calls : List Call) : Bytes := (s.answers calls).flatMap Answer.handed

section
variable {s : Session} {l : Listing} {i : Nat} {rs : List Record}

/-- A step after which the response is a listing that has gone on by what was answered. -/
def Goes (l : Listing) (shut : Bool) (out : Answer × Session) : Prop :=
  ∃ l', out.2.response = .listed l' ∧ Onward out.1.handed shut l l'

theorem quietGoes {out : Answer × Session} (same : out.2.response = .listed l)
    (quiet : out.1.handed = []) : Goes l false out :=
  ⟨l,same,quiet ▸ onwardSame l⟩

theorem answerQuiet {α : Type} {f : α → Answer} (quiet : ∀ a, (f a).handed = [])
    (x : Except Refusal α) : (answer f x).handed = [] := by
  cases x with
  | error why => rfl
  | ok a => exact quiet a

theorem movedGoes {α : Type} {f : α → Answer} {x : Except Refusal (α × Response)}
    (h : s.response = .listed l)
    (each : ∀ a last, x = .ok (a,last) → ∃ l', last = .listed l' ∧ Onward (f a).handed false l l') :
    Goes l false (s.moved f x) := by
  cases x with
  | error why => exact quietGoes h rfl
  | ok pair => exact each pair.1 pair.2 rfl

/- Only reads and pipes hand out bytes, and only a close closes. -/
theorem stepGoes (h : s.response = .listed l) (c : Call) : Goes l (c == .close) (s.step c) := by
  cases c with
  | columns => exact quietGoes h rfl
  | summary => exact quietGoes h rfl
  | records => exact quietGoes h (answerQuiet (fun _ => rfl) _)
  | firstRecord => exact quietGoes h (answerQuiet (fun _ => rfl) _)
  | stream =>
    unfold step
    dsimp only
    split
    · exact quietGoes h rfl
    · exact quietGoes h rfl
  | bytes => exact quietGoes h (answerQuiet (fun _ => rfl) _)
  | close =>
    have closed : (s.step .close).2.response = .listed { l with closed := true } := by
      simp only [step,h,close]
    exact ⟨_,closed,rfl,rfl,rfl,(Bool.or_true _).symm,rfl⟩
  | closed => exact quietGoes h rfl
  | next i =>
    unfold step
    dsimp only
    split
    · exact quietGoes h rfl
    · exact quietGoes h rfl
  | read size =>
    refine movedGoes h fun bytes last read => ?_
    rw [h] at read
    exact readOnward read
  | pipe size =>
    refine movedGoes h fun chunks last piped => ?_
    rw [h] at piped
    exact copiesOnward (pipeCopies piped)

theorem afterGoes (h : s.response = .listed l) (calls : List Call) :
    ∃ l', (s.after calls).response = .listed l' ∧
      Onward (s.handed calls) (calls.contains .close) l l' := by
  induction calls generalizing s l with
  | nil => exact ⟨l,h,onwardSame l⟩
  | cons c calls ih =>
    obtain ⟨m,middle,first⟩ := stepGoes h c
    obtain ⟨n,last,rest⟩ := ih middle
    have shut : (c :: calls).contains .close = ((c == .close) || calls.contains .close) := by
      rw [List.contains_cons,BEq.comm]
    exact ⟨n,last,shut ▸ onwardFurther first rest⟩

theorem afterOpen (h : s.response = .listed l) (open_ : l.closed = false) {calls : List Call}
    (never : .close ∉ calls) : ∃ l', (s.after calls).response = .listed l' ∧
      Onward (s.handed calls) false l l' ∧ l'.closed = false := by
  obtain ⟨l',last,onward⟩ := afterGoes h calls
  rw [List.contains_eq_mem,decide_eq_false never] at onward
  refine ⟨l',last,onward,?_⟩
  rw [onward.closed,open_,Bool.or_false]

theorem movedStreams {α : Type} (f : α → Answer) (x : Except Refusal (α × Response)) :
    (s.moved f x).2.streams = s.streams := by
  cases x with
  | error why => rfl
  | ok pair => rfl

theorem stepNext (s : Session) (i : Nat) : s.step (.next i) =
    (.row (s.streams[i]?.bind List.head?),{ s with streams := s.streams.modify i List.tail }) := by
  rw [List.modify_eq_set]
  unfold step
  dsimp only
  cases found : s.streams[i]? with
  | none =>
    have bound : s.streams.length ≤ i := List.getElem?_eq_none_iff.mp found
    rw [List.set_eq_of_length_le bound]
    rfl
  | some rs =>
    cases rs with
    | nil =>
      obtain ⟨bound,empty⟩ := List.getElem?_eq_some_iff.mp found
      have same : s.streams.set i [] = s.streams := by
        rw [← empty]
        exact List.set_getElem_self bound
      exact congrArg (fun streams => (Answer.row none,{ s with streams := streams })) same.symm
    | cons r rs => rfl

/- A call takes a record from a stream exactly if it is the call on it. -/
theorem stepStream (h : s.streams[i]? = some rs) (c : Call) :
    (s.step c).2.streams[i]? = some (if c = .next i then rs.tail else rs) := by
  cases c with
  | next j =>
    rw [stepNext]
    by_cases here : j = i
    · subst here
      rw [if_pos rfl,List.getElem?_modify_eq,h]
      rfl
    · rw [if_neg fun same => here (Call.next.inj same),List.getElem?_modify_ne _ _ here]
      exact h
  | stream =>
    have bound : i < s.streams.length := (List.getElem?_eq_some_iff.mp h).1
    unfold step
    dsimp only
    split
    · exact (List.getElem?_append_left bound).trans h
    · exact h
  | read size => exact (congrArg (·[i]?) (movedStreams _ _)).trans h
  | pipe size => exact (congrArg (·[i]?) (movedStreams _ _)).trans h
  | _ => exact h

theorem afterStream (h : s.streams[i]? = some rs) (calls : List Call) :
    (s.after calls).streams[i]? = some (rs.drop (calls.count (.next i))) := by
  induction calls generalizing s rs with
  | nil => exact h
  | cons c calls ih =>
    have rest := ih (stepStream h c)
    rw [List.count_cons]
    by_cases here : c = .next i
    · rw [if_pos here,List.drop_tail] at rest
      rw [if_pos (beq_iff_eq.mpr here)]
      exact rest
    · rw [if_neg here] at rest
      rw [if_neg (mt beq_iff_eq.mp here),Nat.add_zero]
      exact rest

theorem stepOpened (h : s.response = .listed l) (open_ : l.closed = false) (c : Call) :
    (s.step c).2.streams.length = s.streams.length + if c == .stream then 1 else 0 := by
  cases c with
  | stream =>
    have given : s.response.records = .ok l.records := by
      rw [h]
      exact if_neg (Bool.eq_false_iff.mp open_)
    unfold step
    dsimp only
    rw [given]
    exact List.length_append
  | next i =>
    rw [stepNext]
    exact List.length_modify _ _ _
  | read size => exact congrArg List.length (movedStreams _ _)
  | pipe size => exact congrArg List.length (movedStreams _ _)
  | _ => rfl

theorem afterOpened (h : s.response = .listed l) (open_ : l.closed = false) {calls : List Call}
    (never : .close ∉ calls) :
    (s.after calls).streams.length = s.streams.length + calls.count .stream := by
  induction calls generalizing s l with
  | nil => rfl
  | cons c calls ih =>
    obtain ⟨first,later⟩ := not_or.mp (mt List.mem_cons.mpr never)
    obtain ⟨l',next,onward⟩ := stepGoes h c
    have still : l'.closed = false := by
      rw [onward.closed,open_,Bool.false_or]
      exact beq_eq_false_iff_ne.mpr (Ne.symm first)
    have rest := ih next still later
    rw [stepOpened h open_] at rest
    rw [afterCons,List.count_cons]
    omega

end
end ColumnDecl.Session
