import ColumnDecl.Proofs.Outcomes
import ColumnDecl.Proofs.Declaration.Trim

/-! Progress. A reading stops behind where it started, at the end of its window or at a delimiter that is
a token of its own, and the list that it reads into gets the one column or stays as it was. So the
loops over lists move on with every turn. -/
namespace ColumnDecl

namespace Token

/-- A comma or a closing parenthesis stands here, and is a token of its own. -/
def Delimited (text : Text) (ts : List Token) (p : Nat) : Prop :=
  ∃ t ∈ ts, t.start = p ∧
    ((t.tag = .comma ∧ t.raw = [','] ∧ text[p]? = some ',') ∨
      (t.tag = .closing ∧ t.raw = [')'] ∧ text[p]? = some ')'))

theorem lexemeDelimiter {c : Char} {u : Text} {tag : Tag} {n : Nat}
    (found : lexeme? c u = some (tag,n)) (ends : tag = .comma ∨ tag = .closing) :
    n = 0 ∧ (tag = .comma → c = ',') ∧ (tag = .closing → c = ')') := by
  cases lexemeRule found with
  | quoted quote => rcases quoteTags quote with rfl | rfl <;> simp at ends
  | number => simp at ends
  | name => simp at ends
  | single alone =>
    unfold singleTag? at alone
    grind

section
variable {text : Text} {ts : List Token} {stop : Nat} (lexed : Lexes 0 (text.take stop) ts)
include lexed

theorem lexesDelimited {t : Token} (member : t ∈ ts) (ends : t.tag = .comma ∨ t.tag = .closing) :
    Delimited text ts t.start := by
  obtain ⟨c,u,n,found,raw⟩ := lexesTags lexed member
  obtain ⟨rfl,comma,closing⟩ := lexemeDelimiter found ends
  rw [List.take_zero] at raw
  have here : text[t.start]? = some c := by
    have inside := (lexesBounds lexed t member).2.1
    have first : t.raw.head? = some c := by rw [raw,List.head?_cons]
    rw [lexesRaw lexed member,Text.sliceHead (by omega),Nat.sub_zero,List.getElem?_take] at first
    split at first
    next => exact first
    next => contradiction
  refine ⟨t,member,rfl,ends.imp (fun tag => ?_) fun tag => ?_⟩
  · cases comma tag
    exact ⟨tag,raw,here⟩
  · cases closing tag
    exact ⟨tag,raw,here⟩

end

end Token

namespace Window
open Token Dialect

variable {text : Text} {ts used rest : List Token} {a stop : Nat}
  (lexed : Lexes 0 (text.take stop) ts)
include lexed

theorem shownFrom {t : Token} (shown : (Window.mk text ts).between a stop = t :: rest) :
    Along stop a (t :: rest) := by
  have along := shownOrdered lexed a
  rw [shown] at along
  exact ⟨shownBehind shown,along.2⟩

/- Behind one of the tokens that it shows a window shows the others. -/
theorem shownOnward {d : Token} (shown : (Window.mk text ts).between a stop = used ++ d :: rest) :
    a ≤ d.start ∧ d.start < d.stop ∧ d.stop ≤ stop ∧
      (Window.mk text ts).between d.stop stop = rest := by
  obtain ⟨front,whole⟩ := shownTail lexed a
  rw [shown] at whole
  have along : Along stop a (used ++ d :: rest) := by
    cases used with
    | nil => exact shownFrom lexed shown
    | cons t used => exact shownFrom lexed shown
  obtain ⟨start,behind⟩ := alongBehind along
  have member : d ∈ ts := by rw [← whole]; simp
  have order := lexesOrdered lexed
  have split : ts = (front ++ used ++ [d]) ++ rest := by rw [← whole]; simp
  refine ⟨start,(lexesBounds lexed d member).2.1,alongLimit behind,?_⟩
  rw [split] at order ⊢
  refine betweenBehind (fun x hx => ?_) fun x hx => alongToken behind hx
  have inside := (lexesBounds lexed x (by rw [split]; exact List.mem_append_left rest hx)).2.1
  rcases List.mem_append.mp hx with before | last
  · have apart := (List.pairwise_append.mp (List.pairwise_append.mp order).1).2.2 x before d (by simp)
    have size := (lexesBounds lexed d member).2.1
    omega
  · cases List.mem_singleton.mp last
    exact inside

end Window

namespace Declaration
open Token

variable {s : Scope}

/- A declaration does not begin with a delimiter, and what is left of it does. -/
theorem outermostConsumes {names : Bool} {first : Nat} {ts rest : List Token} {c : Column}
    (h : outermost s names first ts = .ok (c,rest)) :
    ∃ t used, ts = t :: used ++ rest ∧ Ended rest := by
  obtain ⟨used,whole,ended,_⟩ := outermostRuns _ _ _ _ _ h
  rcases used with _ | ⟨t,used⟩
  · rw [List.nil_append] at whole
    subst whole
    unfold outermost declaration at h
    rcases ts with _ | ⟨t,ts⟩
    · contradiction
    · have delimiter : t.isDelimiter = true := ended
      dsimp only at h
      rw [if_pos delimiter] at h
      contradiction
  · exact ⟨t,used,whole,ended⟩

/-! Turns. -/

/-- One more turn of a loop from an offset on, over declarations, nested columns or literals: an entry
is read, and the loop goes on behind the comma. -/
inductive Turn (s : Scope) (w : Window) (a : Nat) : Nat → Prop where
  | column {first c d rest}
      (read : outermost s true first (w.between a s.stop) = .ok (c,d :: rest))
      (comma : d.tag = .comma) : Turn s w a d.stop
  | part {level names c d rest}
      (read : nestedReader s level names a (w.between a s.stop) = .ok (c,d :: rest))
      (more : d.tag ≠ .closing) : Turn s w a d.stop
  | argument {item d rest} (here : cut (w.between a s.stop) = (item,d :: rest))
      (more : d.tag ≠ .closing) : Turn s w a d.stop

inductive Turns (s : Scope) (w : Window) : Nat → Nat → Nat → Prop where
  | none (a) : Turns s w 0 a a
  | more {n a b c} (turn : Turn s w a b) (rest : Turns s w n b c) : Turns s w (n + 1) a c

theorem turnSeen {w : Window} {a b : Nat} (h : Turn s w a b) :
    ∃ used d rest, w.between a s.stop = used ++ d :: rest ∧ d.stop = b := by
  cases h with
  | column read =>
    obtain ⟨used,whole,_⟩ := outermostRuns _ _ _ _ _ read
    exact ⟨used,_,_,whole,rfl⟩
  | @part level _ _ _ _ read =>
    obtain ⟨used,whole,_⟩ := nestedReaderRuns level s _ _ _ _ _ read
    exact ⟨used,_,_,whole,rfl⟩
  | argument here => exact ⟨_,_,_,(cutEnded here).1,rfl⟩

section
variable {ts : List Token} (lexed : Lexes 0 (s.text.take s.stop) ts)
include lexed

theorem turnAdvances {a b : Nat} (h : Turn s ⟨s.text,ts⟩ a b) : a < b ∧ b ≤ s.stop := by
  obtain ⟨used,d,rest,shown,rfl⟩ := turnSeen h
  obtain ⟨start,size,stop,_⟩ := Window.shownOnward lexed shown
  exact ⟨Nat.lt_of_le_of_lt start size,stop⟩

theorem turnsAdvance {n a b : Nat} (h : Turns s ⟨s.text,ts⟩ n a b) :
    a + n ≤ b ∧ (n ≠ 0 → b ≤ s.stop) := by
  induction h with
  | none a => exact ⟨Nat.le_refl a,fun some => absurd rfl some⟩
  | @more n a b c turn rest ih =>
    obtain ⟨onward,fits⟩ := turnAdvances lexed turn
    obtain ⟨further,last⟩ := ih
    refine ⟨by omega,fun _ => ?_⟩
    cases rest with
    | none => exact fits
    | more => exact last (Nat.succ_ne_zero _)

/- Each loop looks at the tokens that show from its offset on, so its next turn begins where the last
one went. -/
theorem seriesTurns {a : Nat} {cs : List Column}
    (h : Series s ((Window.mk s.text ts).between a s.stop) cs) :
    ∃ b, Turns s ⟨s.text,ts⟩ (cs.length - 1) a b := by
  generalize shown : (Window.mk s.text ts).between a s.stop = us at h
  induction h generalizing a with
  | none => exact ⟨a,.none a⟩
  | last => exact ⟨a,.none a⟩
  | @more t us c d rest cs read comma some shorter next ih =>
    rw [← shown] at read
    obtain ⟨used,whole,_⟩ := outermostRuns _ _ _ _ _ read
    obtain ⟨_,_,_,behind⟩ := Window.shownOnward lexed whole
    obtain ⟨b,turns⟩ := ih behind
    refine ⟨b,?_⟩
    cases next with
    | none => contradiction
    | last | more => exact .more (.column read comma) turns

theorem listedTurns {level a : Nat} {kind : Kind} {p : Parts}
    (h : Listed (nestedReader s level) kind a ((Window.mk s.text ts).between a s.stop) p) :
    ∃ b, Turns s ⟨s.text,ts⟩ (p.columns.length - 1) a b := by
  generalize shown : (Window.mk s.text ts).between a s.stop = us at h
  induction h with
  | @last a => exact ⟨a,.none a⟩
  | @more a us c d rest p read between shorter next ih =>
    rw [← shown] at read
    obtain ⟨used,whole,_⟩ := nestedReaderRuns level s _ _ _ _ _ read
    obtain ⟨_,_,_,behind⟩ := Window.shownOnward lexed whole
    obtain ⟨b,turns⟩ := ih behind
    refine ⟨b,?_⟩
    cases next with
    | last | more => exact .more (.part read between) turns

theorem splitTurns {a : Nat} {args : Arguments}
    (h : Split a ((Window.mk s.text ts).between a s.stop) args) :
    ∃ b, Turns s ⟨s.text,ts⟩ (args.items.length - 1) a b := by
  generalize shown : (Window.mk s.text ts).between a s.stop = us at h
  induction h with
  | @last a => exact ⟨a,.none a⟩
  | @more a us item d rest args here inner next ih =>
    rw [← shown] at here
    obtain ⟨_,_,_,behind⟩ := Window.shownOnward lexed (cutEnded here).1
    obtain ⟨b,turns⟩ := ih behind
    refine ⟨b,?_⟩
    cases next with
    | last | more => exact .more (.argument here inner) turns

end

/-- The loops over lists move on in this window: every turn goes further, and a list takes one for each of
its entries but the last. -/
structure Advancing (s : Scope) (w : Window) : Prop where
  turn : ∀ a b, Turn s w a b → a < b ∧ b ≤ s.stop
  turns : ∀ n a b, Turns s w n a b → a + n ≤ b ∧ (n ≠ 0 → b ≤ s.stop)
  columns : ∀ a cs, columns s (w.between a s.stop) = .ok cs → ∃ b, Turns s w (cs.length - 1) a b
  parts : ∀ level kind opening a p,
    parts s (nestedReader s level) kind opening a (w.between a s.stop) = .ok p →
      ∃ b, Turns s w (p.columns.length - 1) a b
  arguments : ∀ opening args, arguments s opening (w.between opening.stop s.stop) = .ok args →
    ∃ b, Turns s w (args.items.length - 1) opening.stop b

theorem advancing {ts : List Token} (lexed : Lexes 0 (s.text.take s.stop) ts) :
    Advancing s ⟨s.text,ts⟩ where
  turn _ _ h := turnAdvances lexed h
  turns _ _ _ h := turnsAdvance lexed h
  columns _ _ h := seriesTurns lexed (seriesSound h)
  parts _ _ _ _ _ h := listedTurns lexed (listedSound h)
  arguments _ _ h := splitTurns lexed (argumentsExact.mp h)

end Declaration

namespace Dialect
open Token Declaration

variable {d : Dialect} {text : Text} {start stop : Nat} {parent : Option Kind}

theorem readColumnOnward {r : Reading} (h : d.readColumn text start stop parent = .ok r) :
    start < r.next ∧ r.next ≤ stop ∧ (r.next = stop ∨
      ∃ ts, Token.stream (text.take stop) = .ok ts ∧ Delimited text ts r.next) := by
  obtain ⟨ts,first,rest,lexed,read,next⟩ := readColumnSound h
  obtain ⟨t,used,shown,ended⟩ := outermostConsumes read
  have size := (lexesBounds lexed t ((shownTail lexed start).subset (shown ▸ List.mem_cons_self))).2.1
  obtain ⟨onward,behind⟩ := Window.shownFrom lexed shown
  rcases rest with _ | ⟨e,rest⟩
  · have last : r.next = stop := next
    have fits := alongLimit behind
    exact ⟨by omega,Nat.le_of_eq last,.inl last⟩
  · have last : r.next = e.start := next
    obtain ⟨order,tail⟩ := alongBehind behind
    have fits := Nat.le_trans (extent e) (alongLimit tail)
    have member : e ∈ ts := (shownTail lexed start).subset (shown ▸ by simp)
    refine ⟨by omega,by omega,.inr ⟨ts,streamExact.mpr lexed,?_⟩⟩
    rw [last]
    exact lexesDelimited lexed member (endedTag ended)

theorem refusedBehind {failure : Failure} (order : stop < start)
    (h : d.readColumn text start stop parent = .error failure) : ∃ fault, failure = .rejected fault := by
  rcases bindError.mp h with window | ⟨w,window,h⟩
  · have refused : Refusal (d.scope (text.take stop) stop) False failure := windowRefused window
    cases refused with
    | fault => exact ⟨_,rfl⟩
    | number => contradiction
  obtain ⟨ts,rfl,lexed⟩ := windowSound window
  have none : (Window.mk text ts).between start stop = [] := by
    cases shown : (Window.mk text ts).between start stop with
    | nil => rfl
    | cons t rest =>
      have onward := shownBehind shown
      have bounds := lexesBounds lexed t ((shownTail lexed start).subset (shown ▸ List.mem_cons_self))
      rw [List.length_take] at bounds
      omega
  rcases bindError.mp h with skipped | ⟨first,_,h⟩
  · unfold Window.skipLayout Window.skipFrom at skipped
    have outside : ¬start < stop := by omega
    split at skipped
    · rw [if_neg outside] at skipped
      contradiction
    · rw [if_neg fun inside => outside inside.1] at skipped
      contradiction
  rw [none] at h
  rcases bindError.mp h with refused | ⟨_,_,h⟩
  · cases refused
    exact ⟨_,rfl⟩
  · contradiction

theorem refusalMoves {s : Scope} {long : Prop} {failure : Failure} (h : Refusal s long failure) :
    failure ≠ .stalled := by
  cases h with
  | fault | number => exact Failure.noConfusion

theorem readColumnMoves (fits : stop ≤ text.length) {failure : Failure}
    (h : d.readColumn text start stop parent = .error failure) : failure ≠ .stalled := by
  by_cases order : start ≤ stop
  · rcases readColumnFails h order fits with refused | refused
    · exact refusalMoves refused
    · exact refusalMoves refused
  · obtain ⟨fault,rfl⟩ := refusedBehind (Nat.lt_of_not_le order) h
    exact Failure.noConfusion

/-- Reads into a list: the column goes to its end, and what is returned is the offset behind it. -/
def readInto (d : Dialect) (text : Text) (start stop : Nat) (parent : Option Kind) :
    ExceptT Failure (StateM (List Column)) Nat := do
  let r ← ExceptT.mk (pure (d.readColumn text start stop parent))
  modify (· ++ [r.column])
  return r.next

theorem readIntoRun (columns : List Column) :
    (d.readInto text start stop parent).run columns =
      match d.readColumn text start stop parent with
      | .ok r => (.ok r.next,columns ++ [r.column])
      | .error failure => (.error failure,columns) := by
  unfold readInto
  cases read : d.readColumn text start stop parent with
  | ok r => rfl
  | error failure => rfl

theorem readingAdvances (fits : stop ≤ text.length) (columns : List Column) :
    (∀ next after, (d.readInto text start stop parent).run columns = (.ok next,after) →
      (∃ c, after = columns ++ [c]) ∧ start < next ∧ next ≤ stop ∧ (next = stop ∨
        ∃ ts, Token.stream (text.take stop) = .ok ts ∧ Delimited text ts next)) ∧
    (∀ failure after, (d.readInto text start stop parent).run columns = (.error failure,after) →
      after = columns ∧ failure ≠ .stalled) ∧
    (∀ w, Window.ofText text stop = .ok w → Advancing (d.scope text stop) w) ∧
    d.parse text ≠ .error .stalled ∧ ∀ name, d.columnOf name text ≠ .error .stalled := by
  rw [readIntoRun]
  refine ⟨fun next after read => ?_,fun failure after read => ?_,fun w window => ?_,
    fun stalled => refusalMoves (parseFails stalled) rfl,
    fun name stalled => refusalMoves (columnOfFails stalled) rfl⟩
  · cases found : d.readColumn text start stop parent with
    | error failure => rw [found] at read; cases read
    | ok r =>
      rw [found] at read
      cases read
      exact ⟨⟨r.column,rfl⟩,readColumnOnward found⟩
  · cases found : d.readColumn text start stop parent with
    | ok r => rw [found] at read; cases read
    | error refused =>
      rw [found] at read
      cases read
      exact ⟨rfl,readColumnMoves fits found⟩
  · obtain ⟨ts,rfl,lexed⟩ := windowSound (congrArg (Except.mapError Failure.rejected) window)
    exact advancing lexed

/- The start lies inside the first word; neither delimiter between the quotes ends the declaration. -/
theorem readingAdvancesInside :
    let d : Dialect := ⟨⟨[("ENUM8".toList,.enum8)],1⟩,0⟩
    let text : Text := "kk Enum8(',)' = 1) NULL, z".toList
    let before : List Column := []
    text.length ≤ text.length ∧
      ∃ next after, (d.readInto text 1 text.length none).run before = (.ok next,after) ∧ next = 23 ∧
        (∃ c, after = before ++ [c]) ∧
        ∃ ts, Token.stream (text.take text.length) = .ok ts ∧ Delimited text ts 23 := by
  intro d text before
  have seen : ((d.readInto text 1 text.length none).run before).1.toOption = some 23 := by
    decide +kernel
  refine ⟨Nat.le_refl _,?_⟩
  cases read : (d.readInto text 1 text.length none).run before with
  | mk answer after =>
    rw [read] at seen
    cases answer with
    | error failure => contradiction
    | ok next =>
      cases Option.some.inj seen
      obtain ⟨one,_,_,stops⟩ := (readingAdvances (Nat.le_refl _) before).1 23 after read
      exact ⟨23,after,rfl,rfl,one,stops.resolve_left (by decide)⟩

end Dialect
end ColumnDecl
