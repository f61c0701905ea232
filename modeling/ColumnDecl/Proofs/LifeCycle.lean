import ColumnDecl.Proofs.Session

/-! The life of a response. Until the first close it gives all its records again and again; from then on
it only tells its columns and its summary, and the streams taken before give up the rest of their records. -/
namespace ColumnDecl.Session
open Response

/-- An open session over these records. -/
structure Serves (s : Session) (rs : List Record) : Prop where
  closed : s.step .closed = (.closed false,s)
  records : s.step .records = (.records rs,s)
  firstRecord : s.step .firstRecord =
    (match rs.head? with | some r => .record r | none => .refused .noRecords,s)
  stream : s.step .stream = (.streaming,{ s with streams := s.streams ++ [rs] })

/-- A call that a closed response refuses. -/
def Call.guarded : Call → Bool
  | .records | .firstRecord | .stream | .bytes | .pipe _ => true
  | _ => false

structure Shut (s : Session) : Prop where
  closed : s.step .closed = (.closed true,s)
  close : s.step .close = (.closed true,s)
  refused : ∀ c : Call, c.guarded = true →
    ∃ why, s.step c = (.refused why,s) ∧ why.message = "Response is closed"

section
variable {s : Session} {l : Listing}

theorem serves (h : s.response = .listed l) (open_ : l.closed = false) : s.Serves l.records := by
  have closed : s.response.isClosed = false := by
    rw [h]
    exact open_
  have given : s.response.records = .ok l.records := by
    rw [h]
    exact if_neg (Bool.eq_false_iff.mp open_)
  constructor
  · rw [step,closed]
  · rw [step,given]
    rfl
  · rw [step,firstRecord,given]
    cases l.records with
    | nil => rfl
    | cons r rs => rfl
  · rw [step,given]

theorem shut (h : s.response = .listed l) (closed : l.closed = true) : s.Shut := by
  have isClosed : s.response.isClosed = true := by
    rw [h]
    exact closed
  have same : s.response.close = s.response := by
    rw [h,close,← closed]
  have refused : s.response.records = .error .closed := by
    rw [h]
    exact if_pos closed
  constructor
  · rw [step,isClosed]
  · rw [step,same,isClosed]
  · intro c guarded
    refine ⟨.closed,?_,rfl⟩
    cases c with
    | records =>
      rw [step,refused]
      rfl
    | firstRecord =>
      rw [step,firstRecord,refused]
      rfl
    | stream => rw [step,refused]
    | bytes =>
      rw [step,h,hasBytes,if_pos closed]
      rfl
    | pipe size =>
      rw [step,h,pipe,if_pos closed]
      rfl
    | _ => contradiction

/- A stream holds what was listed when it was taken; only the calls on it take from that. -/
theorem streamed (h : s.response = .listed l) (open_ : l.closed = false) {earlier : List Call}
    (never : .close ∉ earlier) (later : List Call) :
    let i := s.streams.length + earlier.count .stream
    ((s.after (earlier ++ .stream :: later)).step (.next i)).1 =
      .row l.records[later.count (.next i)]? := by
  intro i
  obtain ⟨m,middle,onward,still⟩ := afterOpen h open_ never
  have opened : (s.after earlier).streams.length = i := afterOpened h open_ never
  have taken : ((s.after earlier).step .stream).2.streams[i]? = some l.records := by
    rw [(serves middle still).stream,← onward.records,← opened]
    exact List.getElem?_concat_length
  have rest := afterStream taken later
  rw [afterAppend,afterCons,stepNext,rest]
  exact congrArg Answer.row List.head?_drop

end

/-- The records in an answer. -/
def Answer.given : Answer → List Record
  | .records rs => rs
  | .record r => [r]
  | .row r => r.toList
  | _ => []

/-- A session over the empty response: none of its streams has a record. -/
structure Hollow (s : Session) : Prop where
  response : s.response = .empty
  streams : ∀ rs ∈ s.streams, rs = []

section
variable {s : Session}

theorem hollowNext (h : s.Hollow) (i : Nat) : s.step (.next i) = (.row none,s) := by
  unfold step
  dsimp only
  cases found : s.streams[i]? with
  | none => rfl
  | some rs =>
    have empty := h.streams rs (List.mem_of_getElem? found)
    subst empty
    rfl

theorem hollowStep (h : s.Hollow) (c : Call) :
    (s.step c).2.Hollow ∧ (s.step c).1 ≠ .closed true ∧ (s.step c).1.given = [] := by
  have same := h.response
  cases c with
  | next i =>
    rw [hollowNext h]
    exact ⟨h,by rintro ⟨⟩,rfl⟩
  | stream =>
    rw [step,same]
    refine ⟨⟨rfl,fun rs member => ?_⟩,by rintro ⟨⟩,rfl⟩
    rcases List.mem_append.mp member with before | new
    · exact h.streams rs before
    · exact List.mem_singleton.mp new
  | close =>
    rw [step,same]
    exact ⟨⟨rfl,h.streams⟩,by rintro ⟨⟩,rfl⟩
  | read size =>
    rw [step,same]
    exact ⟨⟨rfl,h.streams⟩,by rintro ⟨⟩,rfl⟩
  | pipe size =>
    rw [step,same]
    exact ⟨⟨rfl,h.streams⟩,by rintro ⟨⟩,rfl⟩
  | _ =>
    rw [step,same]
    exact ⟨h,by rintro ⟨⟩,rfl⟩

theorem hollowAnswers (h : s.Hollow) (calls : List Call) :
    ∀ a ∈ s.answers calls, a ≠ .closed true ∧ a.given = [] := by
  induction calls generalizing s with
  | nil => exact nofun
  | cons c calls ih =>
    obtain ⟨next,now⟩ := hollowStep h c
    exact List.forall_mem_cons.mpr ⟨now,ih next⟩

end

/-- The life of a session that starts open: what it answers behind any calls. -/
structure Lives (s : Session) (columns : List Column) (summary : Summary) (rs : List Record) : Prop where
  open_ : ∀ calls, .close ∉ calls → (s.after calls).Serves rs
  shut : ∀ calls, .close ∈ calls → (s.after calls).Shut
  columns : ∀ calls, (s.after calls).step .columns = (.columns columns,s.after calls)
  summary : ∀ calls, (s.after calls).step .summary = (.summary summary,s.after calls)
  streams : ∀ earlier later, .close ∉ earlier →
    ((s.after (earlier ++ .stream :: later)).step (.next (earlier.count .stream))).1 =
      .row rs[later.count (.next (earlier.count .stream))]?

theorem lives {l : Listing} (open_ : l.closed = false) :
    (start (.listed l)).Lives l.columns l.summary l.records where
  open_ calls never := by
    obtain ⟨l',last,onward,still⟩ := afterOpen (s := start (.listed l)) rfl open_ never
    rw [← onward.records]
    exact serves last still
  shut calls closes := by
    obtain ⟨l',last,onward⟩ := afterGoes (s := start (.listed l)) rfl calls
    refine Session.shut last ?_
    rw [onward.closed,List.contains_iff_mem.mpr closes,Bool.or_true]
  columns calls := by
    obtain ⟨l',last,onward⟩ := afterGoes (s := start (.listed l)) rfl calls
    rw [step,last,Response.columns,onward.columns]
  summary calls := by
    obtain ⟨l',last,onward⟩ := afterGoes (s := start (.listed l)) rfl calls
    rw [step,last,Response.summary,onward.summary]
  streams earlier later never := by
    have taken := streamed (s := start (.listed l)) rfl open_ never later
    rw [start,List.length_nil,Nat.zero_add] at taken
    exact taken

/- A response is made exactly of rows as wide as its columns; the empty one is never closed. -/
theorem lifeCycle (columns : List Column) (data : List (List Value)) (payload : Option Bytes)
    (summary : Option Summary) :
    ((∃ r, ofRows columns data payload summary = .ok r) ↔
      ∀ row ∈ data, row.length = columns.length) ∧
    (∀ r, ofRows columns data payload summary = .ok r →
      (start r).Lives columns (summary.getD (counted data payload)) (data.map (Record.mk columns))) ∧
    ∀ calls, ∀ a ∈ (start .empty).answers calls, a ≠ .closed true ∧ a.given = [] := by
  refine ⟨⟨?_,fun wide => ⟨_,ofRowsExact.mpr ⟨wide,rfl⟩⟩⟩,?_,?_⟩
  · rintro ⟨r,made⟩
    exact (ofRowsExact.mp made).1
  · intro r made
    obtain ⟨-,rfl⟩ := ofRowsExact.mp made
    exact lives rfl
  · exact hollowAnswers ⟨rfl,nofun⟩

theorem lifeCycleClosed :
    let c : Column := ⟨"a".toList,"UInt8".toList,.uint8,false,false,true,1,[],none,none,none,none,
      none,none⟩
    let calls := [.stream,.next 0,.close]
    ∃ r, ofRows [c] [[.int 1],[.int 2]] none none = .ok r ∧ ((start r).after calls).Shut ∧
      (((start r).after calls).step (.next 0)).1 = .row (some ⟨[c],[.int 2]⟩) := by
  intro c calls
  obtain ⟨made,life,-⟩ := lifeCycle [c] [[.int 1],[.int 2]] none none
  obtain ⟨r,made⟩ := made.mpr (by decide)
  have lives := life r made
  exact ⟨r,made,lives.shut calls (by decide),lives.streams [] [.next 0,.close] nofun⟩

end ColumnDecl.Session
