import ColumnDecl.Response
import Mathlib.Logic.Function.Basic

/-! Responses. One is made of rows exactly if each of them is as wide as the columns. A pipe is a loop of
reads that ends with the first empty chunk, and what is read is what is missing afterwards. -/
namespace ColumnDecl

namespace Buffer

theorem sizePositive (asked : Option Int) {default maximum : Int} (some : 0 < default)
    (room : 0 < maximum) : 0 < size asked default maximum := by
  unfold size
  cases asked with
  | none => dsimp only; omega
  | some n => dsimp only; split <;> omega

variable {size : Nat} {bytes : Bytes}

theorem chunksEarlier (done earlier : List Bytes) (bytes : Bytes) :
    chunksOnto size (done ++ earlier) bytes = earlier.reverse ++ chunksOnto size done bytes := by
  fun_induction chunksOnto size done bytes with
  | case1 done bytes ends =>
    unfold chunksOnto
    rw [dif_pos ends,List.reverse_append]
  | case2 done bytes more ih =>
    rw [chunksOnto,dif_neg more,← List.cons_append]
    exact ih

theorem chunksNone : chunks size [] = [] := by
  unfold chunks chunksOnto
  rw [dif_pos (.inr rfl),List.reverse_nil]

theorem chunksMore (positive : 0 < size) (some : bytes ≠ []) :
    chunks size bytes = bytes.take size :: chunks size (bytes.drop size) := by
  have more : ¬(size = 0 ∨ bytes = []) := not_or.mpr ⟨by omega,some⟩
  rw [chunks,chunksOnto,dif_neg more]
  exact chunksEarlier [] [bytes.take size] _

theorem totalMore (chunk : Bytes) (chunks : List Bytes) :
    total (chunk :: chunks) = chunk.length + total chunks := rfl

theorem totalJoined (chunks : List Bytes) : total chunks = chunks.flatten.length := by
  induction chunks with
  | nil => rfl
  | cons chunk chunks ih => rw [totalMore,ih,List.flatten_cons,List.length_append]

end Buffer

/-- The bytes that have not been handed out. -/
def Listing.left (l : Listing) : Bytes := l.unread.getD []

namespace Response

/-- The loop of a pipe. Chunks of up to `size` bytes are read, and their bytes counted, until one is
empty. -/
inductive Copies (size : Int) : Response → List Bytes → Nat → Response → Prop where
  | done {r last} (read : r.read (some size) = .ok ([],last)) : Copies size r [] 0 last
  | more {r next last chunk chunks count} (read : r.read (some size) = .ok (chunk,next))
      (some : chunk ≠ []) (rest : Copies size next chunks count last) :
      Copies size r (chunk :: chunks) (chunk.length + count) last

section
variable {size : Int} {asked : Option Int} {r last : Response} {l : Listing} {bytes : Bytes}
  {chunks : List Bytes}

theorem readUnread (open_ : l.closed = false) (left : l.unread = some bytes) (sized : 0 ≤ size) :
    (listed l).read (some size) =
      .ok (bytes.take size.toNat,listed { l with unread := some (bytes.drop size.toNat) }) := by
  unfold read
  dsimp only
  rw [left]
  dsimp only
  rw [open_,if_neg Bool.false_ne_true,if_neg (Int.not_lt.mpr sized)]

/- By induction on the bytes that are left; no read is empty while there are any. -/
theorem copiesUnread (positive : 0 < size) (open_ : l.closed = false) (left : l.unread = some bytes) :
    Copies size (listed l) (Buffer.chunks size.toNat bytes)
      (Buffer.total (Buffer.chunks size.toNat bytes)) (listed { l with unread := some [] }) := by
  have sized : 0 < size.toNat := by omega
  generalize fuel : bytes.length = n
  induction n using Nat.strongRecOn generalizing l bytes with
  | ind n ih =>
    have read := readUnread open_ left (Int.le_of_lt positive)
    by_cases none : bytes = []
    · subst none
      rw [Buffer.chunksNone]
      rw [List.take_nil,List.drop_nil] at read
      exact .done read
    · have some : 0 < bytes.length := List.length_pos_iff.mpr none
      have shorter : (bytes.drop size.toNat).length < n := by
        rw [List.length_drop]
        omega
      rw [Buffer.chunksMore sized none,Buffer.totalMore]
      refine .more read ?_ (ih _ shorter open_ rfl rfl)
      intro empty
      have := congrArg List.length empty
      rw [List.length_take,List.length_nil] at this
      omega

/-- A listing that has handed out some bytes, and has been closed if `shut`. -/
structure Onward (out : Bytes) (shut : Bool) (l l' : Listing) : Prop where
  columns : l'.columns = l.columns
  records : l'.records = l.records
  summary : l'.summary = l.summary
  closed : l'.closed = (l.closed || shut)
  left : l.left = out ++ l'.left

theorem onwardSame (l : Listing) : Onward [] false l l :=
  ⟨rfl,rfl,rfl,(Bool.or_false _).symm,rfl⟩

theorem onwardFurther {out more : Bytes} {shut again : Bool} {l m n : Listing}
    (first : Onward out shut l m) (second : Onward more again m n) :
    Onward (out ++ more) (shut || again) l n where
  columns := second.columns.trans first.columns
  records := second.records.trans first.records
  summary := second.summary.trans first.summary
  closed := by rw [second.closed,first.closed,Bool.or_assoc]
  left := by rw [first.left,second.left,List.append_assoc]

theorem readOnward (h : (listed l).read asked = .ok (bytes,last)) :
    ∃ l', last = listed l' ∧ Onward bytes false l l' := by
  unfold read at h
  dsimp only at h
  cases left : l.unread with
  | none =>
    rw [left] at h
    cases h
    exact ⟨l,rfl,onwardSame l⟩
  | some payload =>
    rw [left] at h
    dsimp only at h
    split at h
    next => contradiction
    next =>
      cases h
      refine ⟨_,rfl,rfl,rfl,rfl,(Bool.or_false _).symm,?_⟩
      rw [Listing.left,left]
      exact (List.take_append_drop _ _).symm

theorem copiesOnward {count : Nat} (h : Copies size (listed l) chunks count last) :
    ∃ l', last = listed l' ∧ Onward chunks.flatten false l l' := by
  generalize start : listed l = r at h
  induction h generalizing l with
  | done read =>
    subst start
    exact readOnward read
  | more read some rest ih =>
    subst start
    obtain ⟨m,rfl,first⟩ := readOnward read
    obtain ⟨n,rfl,second⟩ := ih rfl
    exact ⟨n,rfl,onwardFurther first second⟩

/- A pipe that is not refused is its loop: this ends, and it leaves nothing to read. -/
theorem pipeCopies (h : r.pipe asked = .ok (chunks,last)) :
    Copies (Buffer.size asked Buffer.defaultSize Buffer.maxSize) r chunks (Buffer.total chunks) last := by
  cases r with
  | empty =>
    cases h
    exact .done rfl
  | listed l =>
    unfold pipe at h
    dsimp only at h
    split at h
    next => contradiction
    next open_ =>
      cases left : l.unread with
      | none =>
        rw [left] at h
        cases h
        refine .done ?_
        unfold read
        dsimp only
        rw [left]
      | some bytes =>
        rw [left] at h
        cases h
        exact copiesUnread (Buffer.sizePositive asked (by decide) (by decide))
          (Bool.eq_false_iff.mpr open_) left

theorem readLeft (open_ : l.closed = false) (n : Nat) :
    ∃ last, (listed l).read (some (n : Int)) = .ok (l.left.take n,last) := by
  cases left : l.unread with
  | none =>
    refine ⟨listed l,?_⟩
    unfold read Listing.left
    dsimp only
    rw [left]
    dsimp only
    rw [Option.getD_none,List.take_nil]
  | some bytes =>
    rw [readUnread open_ left (Int.natCast_nonneg n),Listing.left,left]
    exact ⟨_,rfl⟩

theorem pipeLeft (open_ : l.closed = false) (asked : Option Int) :
    ∃ chunks l', (listed l).pipe asked = .ok (chunks,listed l') ∧ chunks.flatten = l.left ∧
      l'.left = [] := by
  have piped : ∃ chunks l', (listed l).pipe asked = .ok (chunks,listed l') ∧ l'.left = [] := by
    unfold pipe
    dsimp only
    rw [open_,if_neg Bool.false_ne_true]
    cases left : l.unread with
    | none => exact ⟨_,_,rfl,congrArg (Option.getD · []) left⟩
    | some bytes => exact ⟨_,_,rfl,rfl⟩
  obtain ⟨chunks,l',piped,none⟩ := piped
  obtain ⟨_,same,onward⟩ := copiesOnward (pipeCopies piped)
  cases same
  refine ⟨chunks,l',piped,?_,none⟩
  rw [onward.left,none,List.append_nil]

/- With nothing left to hand out nothing changes. -/
theorem readSpent (open_ : l.closed = false) (spent : l.left = []) (asked : Option Int) :
    (listed l).read asked = .ok ([],listed l) := by
  unfold read
  dsimp only
  cases left : l.unread with
  | none => rfl
  | some bytes =>
    have none : bytes = [] := by rwa [Listing.left,left] at spent
    subst none
    dsimp only
    rw [open_,if_neg Bool.false_ne_true,List.take_nil,List.drop_nil,← open_,← left]

theorem pipeSpent (open_ : l.closed = false) (spent : l.left = []) (asked : Option Int) :
    (listed l).pipe asked = .ok ([],listed l) := by
  unfold pipe
  dsimp only
  rw [open_,if_neg Bool.false_ne_true]
  cases left : l.unread with
  | none => rfl
  | some bytes =>
    have none : bytes = [] := by rwa [Listing.left,left] at spent
    subst none
    dsimp only
    rw [Buffer.chunksNone,← open_,← left]

end

section
variable {columns : List Column} {data : List (List Value)} {payload : Option Bytes}
  {summary : Option Summary}

theorem rowsExact {records : List Record} : rows columns data = .ok records ↔
    (∀ row ∈ data, row.length = columns.length) ∧ records = data.map (Record.mk columns) := by
  induction data generalizing records with
  | nil => simp [rows,eq_comm]
  | cons row data ih =>
    have each : (∀ x ∈ row :: data, x.length = columns.length) ↔
        row.length = columns.length ∧ ∀ x ∈ data, x.length = columns.length := List.forall_mem_cons
    rw [each,rows,Record.ofRow]
    split
    next wide =>
      cases read : rows columns data with
      | error wrong =>
        refine ⟨nofun,fun h => ?_⟩
        exact nomatch read.symm.trans (ih.mpr ⟨h.1.2,rfl⟩)
      | ok others =>
        obtain ⟨wides,rfl⟩ := ih.mp read
        constructor
        · intro h
          cases h
          exact ⟨⟨wide,wides⟩,rfl⟩
        · rintro ⟨-,rfl⟩
          rfl
    next narrow => exact ⟨nofun,fun h => absurd h.1.1 narrow⟩

/-- The counters of a response over these rows when none are given. -/
def counted (data : List (List Value)) (payload : Option Bytes) : Summary :=
  ⟨data.length,(payload.getD []).length,0,0,0⟩

theorem ofRowsExact {r : Response} : ofRows columns data payload summary = .ok r ↔
    (∀ row ∈ data, row.length = columns.length) ∧
      r = .listed ⟨columns,data.map (Record.mk columns),payload,
        summary.getD (counted data payload),false⟩ := by
  unfold ofRows
  cases read : rows columns data with
  | error wrong =>
    refine ⟨nofun,fun h => ?_⟩
    exact nomatch read.symm.trans (rowsExact.mpr ⟨h.1,rfl⟩)
  | ok records =>
    obtain ⟨wide,rfl⟩ := rowsExact.mp read
    have size : (data.map (Record.mk columns)).length = data.length := List.length_map _
    constructor
    · intro h
      cases h
      rw [size]
      exact ⟨wide,rfl⟩
    · rintro ⟨-,rfl⟩
      rw [counted,← size]
      rfl

end
end Response
end ColumnDecl
