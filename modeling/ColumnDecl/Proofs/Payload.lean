import ColumnDecl.Proofs.Session

/-! The payload of a response. Reads and pipes, in any order, hand it out once from its start to its end;
a pipe takes all that is left. -/
namespace ColumnDecl.Session
open Response

/-- A session whose next read or pipe begins with the bytes in `left`. -/
structure Sends (s : Session) (left : Bytes) : Prop where
  reads : ∀ n : Nat, (s.step (.read (some n))).1 = .bytes (left.take n)
  pipes : ∀ size, ∃ chunks t, s.step (.pipe size) = (.chunks chunks,t) ∧ chunks.flatten = left ∧
    Buffer.total chunks = left.length ∧
    Copies (Buffer.size size Buffer.defaultSize Buffer.maxSize) s.response chunks
      (Buffer.total chunks) t.response

/-- A session in which reads and pipes of any size are answered with nothing and change nothing. -/
structure Spent (s : Session) : Prop where
  reads : ∀ size, s.step (.read size) = (.bytes [],s)
  pipes : ∀ size, s.step (.pipe size) = (.chunks [],s)

section
variable {s : Session} {l : Listing}

theorem sends (h : s.response = .listed l) (open_ : l.closed = false) : s.Sends l.left where
  reads n := by
    obtain ⟨last,read⟩ := readLeft open_ n
    rw [← h] at read
    rw [step,read]
    rfl
  pipes size := by
    obtain ⟨chunks,l',piped,all,-⟩ := pipeLeft open_ size
    rw [← h] at piped
    refine ⟨chunks,{ s with response := .listed l' },?_,all,?_,pipeCopies piped⟩
    · rw [step,piped]
      rfl
    · rw [← all,Buffer.totalJoined]

theorem spent (h : s.response = .listed l) (open_ : l.closed = false) (none : l.left = []) :
    s.Spent where
  reads size := by
    have read := readSpent open_ none size
    rw [← h] at read
    rw [step,read]
    rfl
  pipes size := by
    have piped := pipeSpent open_ none size
    rw [← h] at piped
    rw [step,piped]
    rfl

theorem pipeEmpties (h : s.response = .listed l) (open_ : l.closed = false) (size : Option Int) :
    ∃ l', (s.step (.pipe size)).2.response = .listed l' ∧ l'.left = [] := by
  obtain ⟨chunks,l',piped,-,none⟩ := pipeLeft open_ size
  rw [← h] at piped
  refine ⟨l',?_,none⟩
  rw [step,piped]
  rfl

theorem afterPipe (h : s.response = .listed l) (open_ : l.closed = false) {calls : List Call}
    (never : .close ∉ calls) {size : Option Int} (piped : .pipe size ∈ calls) :
    ∃ l', (s.after calls).response = .listed l' ∧ l'.left = [] := by
  obtain ⟨a,b,rfl⟩ := List.append_of_mem piped
  obtain ⟨m,middle,-,still⟩ :=
    afterOpen h open_ fun closes : .close ∈ a => never (List.mem_append_left _ closes)
  obtain ⟨n,emptied,none⟩ := pipeEmpties middle still size
  obtain ⟨l',last,rest⟩ := afterGoes emptied b
  rw [afterAppend]
  refine ⟨l',last,?_⟩
  have nothing := rest.left
  rw [none] at nothing
  exact (List.append_eq_nil_iff.mp nothing.symm).2

theorem onwardInOrder (h : s.response = .listed l) (open_ : l.closed = false) {calls : List Call}
    (never : .close ∉ calls) :
    ∃ left, l.left = s.handed calls ++ left ∧ (s.after calls).Sends left ∧
      (l.left = [] ∨ (∃ size, .pipe size ∈ calls) → (s.after calls).Spent) := by
  obtain ⟨l',last,onward,still⟩ := afterOpen h open_ never
  refine ⟨l'.left,onward.left,sends last still,fun ended => spent last still ?_⟩
  rcases ended with absent | ⟨size,piped⟩
  · have nothing := onward.left
    rw [absent] at nothing
    exact (List.append_eq_nil_iff.mp nothing.symm).2
  · obtain ⟨l'',same,none⟩ := afterPipe h open_ never piped
    cases last.symm.trans same
    exact none

end

/- Whatever is called before a close, the bytes handed out are the beginning of the payload; a pipe then
ends, with all the others and their number. -/
theorem payloadInOrder {columns : List Column} {data : List (List Value)} {payload : Option Bytes}
    {summary : Option Summary} {r : Response} (made : ofRows columns data payload summary = .ok r)
    (calls : List Call) (never : .close ∉ calls) :
    let s := (start r).after calls
    ∃ left, payload.getD [] = (start r).handed calls ++ left ∧ s.Sends left ∧
      (payload = none ∨ (∃ size, .pipe size ∈ calls) → s.Spent) := by
  obtain ⟨-,same⟩ := ofRowsExact.mp made
  have begun : (start r).response = .listed _ := same
  obtain ⟨left,whole,sends,ended⟩ := onwardInOrder begun rfl never
  refine ⟨left,whole,sends,fun ends => ended (ends.imp_left fun absent => ?_)⟩
  exact congrArg (Option.getD · []) absent

theorem payloadInOrderOnward :
    let calls := [.read (some 2),.stream]
    ∃ r, ofRows [] [[]] (some [7,8,9]) none = .ok r ∧ .close ∉ calls ∧
      ∃ left, [7,8,9] = [7,8] ++ left ∧ ((start r).after calls).Sends left := by
  intro calls
  have never : .close ∉ calls := by decide
  have made : ofRows [] [[]] (some [7,8,9]) none = .ok _ := rfl
  obtain ⟨left,whole,sends,-⟩ := payloadInOrder made calls never
  exact ⟨_,made,never,left,whole,sends⟩

end ColumnDecl.Session
