import ColumnDecl.Proofs.Token.Spans
import ColumnDecl.Proofs.Windows

/-! Cursors in a window on a whole text. The tokens between two offsets may be found by halving the list
until the first that starts far enough is met, as tokens come in order; and from an offset that cuts
through no token, the next token starts where the layout ends. -/
namespace ColumnDecl.Window
open Token

/-- How many of the offsets are less than this one, if they ascend. The first `low` of them are less,
those from `high` on are not, and the rest is halved until nothing of it is left. -/
def countBelow (starts : List Nat) (offset low high : Nat) (inside : high ≤ starts.length) : Nat :=
  if more : low < high then
    let middle := (low + high) / 2
    have below : middle < high := by omega
    if starts[middle] < offset then countBelow starts offset (middle + 1) high inside
    else countBelow starts offset low middle (by omega)
  else low
termination_by high - low

/-- Behind the first token that reaches too far no more is looked at. -/
def searched (w : Window) (start stop : Nat) : List Token :=
  let starts := w.tokens.map Token.start
  (w.tokens.drop (countBelow starts start 0 starts.length (Nat.le_refl _))).takeWhile (·.stop ≤ stop)

/-! Halving. -/

/-- The first `low` of the offsets are less than this one, and those from `high` on are not. -/
structure Splits (starts : List Nat) (offset low high : Nat) : Prop where
  below : ∀ i (h : i < starts.length), i < low → starts[i] < offset
  above : ∀ i (h : i < starts.length), high ≤ i → offset ≤ starts[i]

section
variable {starts : List Nat} {offset low high middle : Nat}
  (ascending : starts.Pairwise (· < ·)) (split : Splits starts offset low high)
  (inside : middle < starts.length)
include ascending split

theorem splitsUpper (less : starts[middle] < offset) : Splits starts offset (middle + 1) high where
  below i h small := by
    rcases Nat.lt_or_eq_of_le (Nat.le_of_lt_succ small) with before | rfl
    · exact Nat.lt_trans (List.pairwise_iff_getElem.mp ascending i middle h inside before) less
    · exact less
  above := split.above

theorem splitsLower (more : ¬starts[middle] < offset) : Splits starts offset low middle where
  below := split.below
  above i h large := by
    rcases Nat.lt_or_eq_of_le large with behind | rfl
    · have := List.pairwise_iff_getElem.mp ascending middle i inside h behind
      omega
    · exact Nat.not_lt.mp more

end

theorem countBelowSplits {starts : List Nat} (ascending : starts.Pairwise (· < ·))
    {offset low high : Nat} (inside : high ≤ starts.length) (split : Splits starts offset low high)
    (order : low ≤ high) :
    let count := countBelow starts offset low high inside
    Splits starts offset count count := by
  fun_induction countBelow starts offset low high inside with
  -- Each turn moves one end to the middle and keeps both.
  | case1 low high inside more middle below less ih =>
    exact ih (splitsUpper ascending split (by omega) less) below
  | case2 low high inside more middle below other ih =>
    exact ih (splitsLower ascending split (by omega) other) (by omega)
  | case3 low high inside none =>
    cases Nat.le_antisymm order (Nat.not_lt.mp none)
    exact split

theorem countBelowWhole {starts : List Nat} (ascending : starts.Pairwise (· < ·)) (offset : Nat) :
    let count := countBelow starts offset 0 starts.length (Nat.le_refl _)
    Splits starts offset count count :=
  countBelowSplits ascending _ ⟨fun i _ small => absurd small (Nat.not_lt_zero i),
    fun _ inside large => absurd inside (Nat.not_lt.mpr large)⟩ (Nat.zero_le _)

/-! What lies between two offsets. -/

section
variable {front back ts : List Token} {text : Text} {a b : Nat}

/- Where one token reaches too far, so do all behind it. -/
theorem takenInside (before : ∀ x ∈ front, x.start < a) (behind : ∀ x ∈ back, a ≤ x.start)
    (ordered : back.Pairwise fun x y => x.stop ≤ y.start) :
    back.takeWhile (·.stop ≤ b) = (front ++ back).filter fun x => a ≤ x.start ∧ x.stop ≤ b := by
  have none : front.filter (fun x => a ≤ x.start ∧ x.stop ≤ b) = [] := by
    rw [List.filter_eq_nil_iff]
    intro x hx inside
    have := before x hx
    have := of_decide_eq_true inside
    omega
  rw [List.filter_append,none,List.nil_append]
  clear none before
  induction ordered with
  | nil => rfl
  | @cons x back next _ ih =>
    have starts := behind x List.mem_cons_self
    by_cases fits : x.stop ≤ b
    · rw [List.takeWhile_cons_of_pos (by simpa using fits),
        List.filter_cons_of_pos (by simpa using ⟨starts,fits⟩),
        ih fun y hy => behind y (List.mem_cons_of_mem _ hy)]
    · have rest : ∀ y ∈ x :: back, ¬(a ≤ y.start ∧ y.stop ≤ b) := by
        intro y hy inside
        rcases List.mem_cons.mp hy with rfl | hy
        · exact fits inside.2
        · have := next y hy
          have := extent y
          omega
      rw [List.takeWhile_cons_of_neg (by simpa using fits),List.filter_eq_nil_iff.mpr]
      simpa using rest

theorem lexesAscending {p : Nat} (lexed : Lexes p text ts) :
    (ts.map Token.start).Pairwise (· < ·) := by
  rw [List.pairwise_map]
  refine (lexesOrdered lexed).imp_of_mem fun {x y} hx _ order => ?_
  have := (lexesBounds lexed x hx).2.1
  omega

/- The place that is found by halving parts the tokens that start too early from the others. -/
theorem searchedParts (lexed : Lexes 0 text ts) (a : Nat) : ∃ front back, ts = front ++ back ∧
    (∀ x ∈ front, x.start < a) ∧ (∀ x ∈ back, a ≤ x.start) ∧
    ∀ b, (Window.mk text ts).searched a b = back.takeWhile (·.stop ≤ b) := by
  obtain ⟨below,above⟩ := countBelowWhole (lexesAscending lexed) a
  unfold searched
  dsimp only
  generalize countBelow (ts.map Token.start) a 0 _ _ = count at below above ⊢
  simp only [List.length_map,List.getElem_map] at below above
  refine ⟨ts.take count,ts.drop count,(List.take_append_drop count ts).symm,fun x hx => ?_,
    fun x hx => ?_,fun b => rfl⟩
  · obtain ⟨i,inside,rfl⟩ := List.mem_take_iff_getElem.mp hx
    exact below i (by omega) (by omega)
  · obtain ⟨i,inside,rfl⟩ := List.mem_drop_iff_getElem.mp hx
    exact above (count + i) (by omega) (Nat.le_add_right count i)

theorem searchedExact (lexed : Lexes 0 text ts) (a b : Nat) :
    (Window.mk text ts).searched a b = ts.filter fun x => a ≤ x.start ∧ x.stop ≤ b := by
  obtain ⟨front,back,whole,before,behind,found⟩ := searchedParts lexed a
  have ordered := lexesOrdered lexed
  rw [whole] at ordered
  rw [found,whole,takenInside before behind (List.pairwise_append.mp ordered).2.1]

theorem betweenSearched (lexed : Lexes 0 text ts) (a b : Nat) :
    (Window.mk text ts).between a b = (Window.mk text ts).searched a b := by
  obtain ⟨front,back,whole,before,behind,found⟩ := searchedParts lexed a
  rw [found,between,whole]
  dsimp only
  rw [List.dropWhile_append_of_pos (by simpa using before)]
  rcases back with _ | ⟨x,back⟩
  · rfl
  · have first := behind x List.mem_cons_self
    rw [List.dropWhile_cons_of_neg (by simpa using first)]

end

/-! Layout. -/

theorem skipsWhole {t : Text} {p : Nat} : skipFrom (p + t.length) p t = .ok (p + t.length) ↔
    ∀ c ∈ t, c ∈ gaps := by
  induction t generalizing p with
  | nil => simp [skipFrom]
  | cons c t ih =>
    rw [List.length_cons,Nat.add_comm t.length,← Nat.add_assoc,skipFrom,List.forall_mem_cons,
      ← layoutGap]
    by_cases layout : Text.isLayout c = true
    · rw [if_pos ⟨by omega,layout⟩,ih]
      simp [layout]
    · rw [if_neg fun skipped => layout skipped.2]
      constructor
      · intro same
        have := Except.ok.inj same
        omega
      · intro all
        exact absurd all.1 layout

theorem lexesNone {t : Text} {p : Nat} : Lexes p t [] ↔ ∀ c ∈ t, c ∈ gaps := by
  constructor
  · intro h
    generalize none : ([] : List Token) = ts at h
    induction h with
    | done p => exact nofun
    | gap layout rest ih => exact List.forall_mem_cons.mpr ⟨layoutGap.mp layout,ih none⟩
    | token => contradiction
  · intro h
    induction t generalizing p with
    | nil => exact .done p
    | cons c t ih =>
      obtain ⟨first,rest⟩ := List.forall_mem_cons.mp h
      exact .gap (layoutGap.mpr first) (ih rest)

/- What is layout to a cursor is no token to the lexer, and nothing else is. -/
theorem cursorsExact {text : Text} {ts : List Token} (lexed : Token.stream text = .ok ts) :
    let w : Window := ⟨text,ts⟩
    ofText text text.length = .ok w ∧
    (∀ start stop,
      w.searched start stop = ts.filter (fun t => start ≤ t.start ∧ t.stop ≤ stop) ∧
      w.between start stop = w.searched start stop ∧
      w.peek? start stop = (w.searched start stop).head?) ∧
    (∀ start ≤ text.length, (∀ t ∈ ts, ¬(t.start < start ∧ start < t.stop)) →
      w.skipLayout start text.length =
        .ok (((w.peek? start text.length).map Token.start).getD text.length)) ∧
    ∀ piece : Text,
      ((Window.mk piece []).skipLayout 0 piece.length = .ok piece.length ↔ ∀ c ∈ piece, c ∈ gaps) ∧
      (Token.stream piece = .ok [] ↔ ∀ c ∈ piece, c ∈ gaps) := by
  intro w
  have known := streamExact.mp lexed
  refine ⟨ofWhole known,fun start stop => ?_,fun start inside uncut => ?_,fun piece => ?_⟩
  · have found := betweenSearched known start stop
    exact ⟨searchedExact known start stop,found,congrArg List.head? found⟩
  · have whole : stream (text.take text.length) = .ok ts := by rwa [List.take_length]
    obtain ⟨core,_,_,shown,skipped⟩ := Dialect.paneShown ⟨inside,Nat.le_refl _,whole,uncut⟩
    rw [skipped,peek?,shown]
    cases core with
    | nil => rfl
    | cons => rfl
  · have skips := skipsWhole (t := piece) (p := 0)
    rw [Nat.zero_add] at skips
    exact ⟨skips,streamExact.trans lexesNone⟩

/- One start is inside a quoted name, one between two tokens, and one behind the last of them. -/
theorem cursorsExactQuoted :
    let text := "a\t `b c`\n( ".toList
    let first : Token := ⟨.identifier,['a'],0⟩
    let name : Token := ⟨.quotedIdentifier,"`b c`".toList,3⟩
    let parenthesis : Token := ⟨.opening,['('],9⟩
    let w : Window := ⟨text,[first,name,parenthesis]⟩
    Token.stream text = .ok w.tokens ∧
      w.searched 0 8 = [first,name] ∧ w.searched 5 11 = [parenthesis] ∧
      w.peek? 1 text.length = some name ∧ w.skipLayout 1 text.length = .ok 3 ∧
      w.peek? 10 text.length = none ∧ w.skipLayout 10 text.length = .ok 11 := by
  intro text first name parenthesis w
  have lexed : Token.stream text = .ok w.tokens := by decide +kernel
  obtain ⟨-,shown,skipped,-⟩ := cursorsExact lexed
  have next : w.peek? 1 text.length = some name := by decide +kernel
  have last : w.peek? 10 text.length = none := by decide +kernel
  refine ⟨lexed,(shown 0 8).1.trans (by decide +kernel),(shown 5 11).1.trans (by decide +kernel),
    next,(skipped 1 (by decide) (by decide)).trans ?_,
    last,(skipped 10 (by decide) (by decide)).trans ?_⟩
  · rw [next]
    rfl
  · rw [last]
    rfl

end ColumnDecl.Window
