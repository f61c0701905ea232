import ColumnDecl.Proofs.Declaration.Likeness.Declaration
import ColumnDecl.Proofs.Token.Window

/-! Windows on longer texts. What is read from a window is settled by the text between its two offsets:
neither what stands before it nor what stands behind it matters, and offsets only move along. -/
namespace ColumnDecl

namespace Token

/- Tokens on the two sides of an offset that cuts through none of them. -/
theorem lexesParted {p : Nat} {t : Text} {ts : List Token} (h : Lexes p t ts) {a : Nat}
    (uncut : ∀ x ∈ ts, ¬(x.start < a ∧ a < x.stop)) :
    ∃ front core, ts = front ++ core ∧ (∀ x ∈ front, x.stop ≤ a) ∧ ∀ x ∈ core, a ≤ x.start := by
  have ordered := lexesOrdered h
  clear h
  induction ordered with
  | nil => exact ⟨[],[],rfl,nofun,nofun⟩
  | @cons x ts behind _ ih =>
    by_cases before : x.start < a
    · have inside := uncut x List.mem_cons_self
      obtain ⟨front,core,rfl,left,right⟩ := ih fun y hy => uncut y (List.mem_cons_of_mem _ hy)
      refine ⟨x :: front,core,rfl,?_,right⟩
      intro y hy
      rcases List.mem_cons.mp hy with rfl | hy
      · omega
      · exact left y hy
    · refine ⟨[],x :: ts,rfl,nofun,?_⟩
      intro y hy
      rcases List.mem_cons.mp hy with rfl | hy
      · omega
      · have := behind y hy
        have := extent x
        omega

end Token

namespace Window
open Token

theorem skipReach {p : Nat} {t : Text} {ts : List Token} (h : Lexes p t ts) (more : Text) :
    skipFrom (p + t.length) p (t ++ more) = .ok (reach (p + t.length) ts) := by
  induction h with
  | done p => cases more <;> simp [skipFrom,reach]
  | @gap p c t ts layout rest ih =>
    rw [List.length_cons,Nat.add_comm t.length,← Nat.add_assoc,List.cons_append,skipFrom,if_pos]
    · exact ih
    · exact ⟨by omega,layout⟩
  | token visible => simp [skipFrom,reach,visible]

end Window

namespace Dialect
open Token Declaration Window

/-- The tokens of a text up to an offset, none of which an earlier offset cuts through. -/
structure Pane (text : Text) (start stop : Nat) (ts : List Token) : Prop where
  order : start ≤ stop
  fits : stop ≤ text.length
  tokens : Token.stream (text.take stop) = .ok ts
  uncut : ∀ t ∈ ts, ¬(t.start < start ∧ start < t.stop)

variable {d : Dialect} {text text' : Text} {start stop start' stop' : Nat} {ts us : List Token}
  {parent : Option Kind}

/- The window shows what lies on one side of its start, and layout ends where the first token of it
begins. -/
theorem paneShown (pane : Pane text start stop ts) : ∃ core, core <:+ ts ∧
    Lexes start (text.slice start stop) core ∧ (Window.mk text ts).between start stop = core ∧
    (Window.mk text ts).skipLayout start stop = .ok (reach stop core) := by
  have lexed := streamExact.mp pane.tokens
  have size : (text.take stop).length = stop := by
    rw [List.length_take]
    exact Nat.min_eq_left pane.fits
  obtain ⟨front,core,rfl,before,behind⟩ := lexesParted lexed pane.uncut
  have bounds := lexesBounds lexed
  rw [size,Nat.zero_add] at bounds
  have inside : ∀ x ∈ core, start ≤ x.start ∧ x.stop ≤ stop := fun x hx =>
    ⟨behind x hx,(bounds x (List.mem_append_right _ hx)).2.2⟩
  have shown : (Window.mk text (front ++ core)).between start stop = core := by
    refine betweenBehind (fun x hx => ?_) inside
    have := before x hx
    have := bounds x (List.mem_append_left _ hx)
    omega
  have piece : Lexes start (text.slice start stop) core := by
    have whole : Lexes 0 (text.take stop) (front ++ (core ++ [])) := by rwa [List.append_nil]
    rw [← sliceTaken text (Nat.le_refl stop)]
    exact lexesSlice whole pane.order (Nat.le_of_eq size.symm) before inside nofun
  refine ⟨core,⟨front,rfl⟩,piece,shown,?_⟩
  have skip := skipReach piece (text.drop stop)
  have whole : text.slice start stop ++ text.drop stop = text.drop start := by
    rw [Text.slice,← Nat.add_sub_cancel' pane.order,← List.drop_drop,Nat.add_sub_cancel_left,
      List.take_append_drop]
  rwa [Text.sliceFits pane.fits,Nat.add_sub_cancel' pane.order,whole] at skip

theorem paneRead (pane : Pane text start stop ts) : ∃ core, core <:+ ts ∧
    Lexes start (text.slice start stop) core ∧
    ∀ (d : Dialect) parent, d.readColumn text start stop parent = (do
      let (column, rest) ← outermost (d.scope text stop) (allowsNames parent) (reach stop core) core
      .ok ⟨column,reach stop rest⟩) := by
  obtain ⟨core,suffix,piece,shown,skipped⟩ := paneShown pane
  refine ⟨core,suffix,piece,fun d parent => ?_⟩
  have opened : ofText text stop = .ok ⟨text,ts⟩ := by
    rw [ofText,pane.tokens]
    rfl
  unfold readColumn
  rw [opened]
  change ((Window.mk text ts).skipLayout start stop >>= _) = _
  rw [skipped]
  change ((outermost _ _ _ ((Window.mk text ts).between start stop)) >>= _) = _
  rw [shown]
  rfl

theorem paneWidths (left : Pane text start stop ts) (right : Pane text' start' stop' us)
    (same : text.slice start stop = text'.slice start' stop') :
    stop = start + (stop - start) ∧ stop' = start' + (stop - start) := by
  have sizes := congrArg List.length same
  rw [Text.sliceFits left.fits,Text.sliceFits right.fits] at sizes
  have := left.order
  have := right.order
  omega

/-- Two windows that show the same characters. -/
def panes (d : Dialect) (left : Pane text start stop ts) (right : Pane text' start' stop' us)
    (same : text.slice start stop = text'.slice start' stop') : Passage where
  source := d.scope text stop
  target := d.scope text' stop'
  start := start
  offset := start'
  size := stop - start
  keywords := rfl
  text := by
    obtain ⟨here,there⟩ := paneWidths left right same
    rw [← here,← there]
    exact same

def paneLikeness (d : Dialect) (left : Pane text start stop ts) (right : Pane text' start' stop' us)
    (same : text.slice start stop = text'.slice start' stop') : Likeness where
  view := .whole
  source := d.scope text stop
  target := d.scope text' stop'
  left := ts
  right := us
  At := (panes d left right same).At
  letters := Column.View.lettersKept fun _ => rfl
  functions := fun _ _ => rfl
  keywords := rfl
  maxDepth := rfl
  lexedLeft := streamExact.mp left.tokens
  lexedRight := streamExact.mp right.tokens
  fitsLeft := left.fits
  fitsRight := right.fits
  ends := by
    obtain ⟨here,there⟩ := paneWidths left right same
    exact ⟨stop - start,here,there,Nat.le_refl _⟩
  excerpts := fun first last => congrArg _ (Passage.sliceAt first last)

end Dialect

/-- The same cause, at places that correspond where there are any. -/
structure Fault.Displaced (At : Nat → Nat → Prop) (f g : Fault) : Prop where
  cause : f.cause = g.cause
  start : Option.Rel At f.start g.start
  stop : Option.Rel At f.stop g.stop

namespace Dialect
open Token Declaration Window

variable {d : Dialect} {text text' : Text} {start stop start' stop' : Nat} {ts us : List Token}

theorem paneFault {left : Pane text start stop ts} {right : Pane text' start' stop' us}
    {same : text.slice start stop = text'.slice start' stop'} {f g : Fault}
    (h : (paneLikeness d left right same).LikeFault f g) :
    f.Displaced (panes d left right same).At g :=
  ⟨h.cause.2 rfl,h.start,h.stop⟩

theorem windowsAgree (left : Pane text start stop ts) (right : Pane text' start' stop' us)
    (same : text.slice start stop = text'.slice start' stop') (parent : Option Kind) :
    Agree (Failure.Paired (Fault.Displaced (panes d left right same).At))
      (fun r r' => r.column = r'.column ∧ (panes d left right same).At r.next r'.next)
      (d.readColumn text start stop parent) (d.readColumn text' start' stop' parent) := by
  obtain ⟨core,inside,piece,read⟩ := paneRead left
  obtain ⟨core',inside',piece',read'⟩ := paneRead right
  obtain ⟨_,moved,shifted⟩ := lexesMoved piece start'
  rw [same] at moved
  cases lexesUnique moved piece'
  rw [Text.sliceFits left.fits] at shifted
  have alike : (paneLikeness d left right same).Likes core core' :=
    ⟨shifted.imp fun t u (mate : (panes d left right same).Same t u) =>
      ⟨mate.1,congrArg _ mate.2.1,fun _ => mate.2.1,Passage.sameStart mate,Passage.sameStop mate⟩,
      inside,inside'⟩
  rw [read d parent,read' d parent]
  have ran := (Likeness.outermostLike (allowsNames parent) alike).weaker
    (fun _ _ failed => failed.weaker fun _ _ => paneFault) fun _ _ => id
  refine ran.followed fun r r' both => .read ⟨?_,?_⟩
  · have seen : r.1.seen .whole = r'.1.seen .whole := both.column
    rwa [Column.seenWhole,Column.seenWhole] at seen
  · exact Likeness.reachLike (paneLikeness d left right same).ends both.rest

theorem displacedWeaker {At At' : Nat → Nat → Prop} (weaker : ∀ a b, At a b → At' a b)
    {f g : Fault} (h : f.Displaced At g) : f.Displaced At' g := by
  have place : ∀ {x y : Option Nat}, Option.Rel At x y → Option.Rel At' x y := by
    intro x y rel
    cases rel with
    | none => exact .none
    | some same => exact .some (weaker _ _ same)
  exact ⟨h.cause,place h.start,place h.stop⟩

/- The text of a window read by itself. -/
theorem windowAlone (d : Dialect) (text : Text) (start stop : Nat) (parent : Option Kind)
    (ts : List Token) (order : start ≤ stop) (fits : stop ≤ text.length)
    (tokens : Token.stream (text.take stop) = .ok ts)
    (uncut : ∀ t ∈ ts, ¬(t.start < start ∧ start < t.stop)) :
    Agree (Failure.Paired (Fault.Displaced fun a b => a = b + start))
      (fun r r' => r.column = r'.column ∧ r.next = r'.next + start)
      (d.readColumn text start stop parent)
      (d.readColumn (text.slice start stop) 0 (stop - start) parent) := by
  have pane : Pane text start stop ts := ⟨order,fits,tokens,uncut⟩
  obtain ⟨core,_,piece,_⟩ := paneRead pane
  obtain ⟨us,moved,_⟩ := lexesMoved piece 0
  have size := Text.sliceFits (a := start) fits
  have whole : (text.slice start stop).take (stop - start) = text.slice start stop :=
    List.take_of_length_le (Nat.le_of_eq size)
  have alone : Pane (text.slice start stop) 0 (stop - start) us :=
    ⟨Nat.zero_le _,Nat.le_of_eq size.symm,by rw [whole]; exact streamExact.mpr moved,
      fun _ _ cut => absurd cut.1 (Nat.not_lt_zero _)⟩
  have position : ∀ a b, (panes d pane alone whole.symm).At a b → a = b + start := by
    rintro a b ⟨k,rfl,rfl,_⟩
    change start + k = 0 + k + start
    omega
  exact (windowsAgree pane alone whole.symm parent).weaker
    (fun _ _ failed => failed.weaker fun _ _ => displacedWeaker position)
    fun r r' both => ⟨both.1,position _ _ both.2⟩

theorem windowAloneDate :
    let d : Dialect := ⟨⟨[("DATE".toList,.date),("INT8".toList,.int8)],1⟩,0⟩
    let text : Text := "k Int8, v Date 'z".toList
    let c : Column := ⟨"v".toList,"Date".toList,.date,false,false,true,2,[],none,none,none,none,none,
      none⟩
    (d.readColumn (text.slice 7 14) 0 7 none).map (fun r => (r.column, r.next)) = .ok (c, 7) ∧
      (d.readColumn text 7 14 none).map (fun r => (r.column, r.next)) = .ok (c, 14) := by
  intro d text c
  have alone : (d.readColumn (text.slice 7 14) 0 7 none).map (fun r => (r.column, r.next)) =
      .ok (c, 7) := by decide +kernel
  refine ⟨alone,?_⟩
  have tokens : Token.stream (text.take 14) = .ok [⟨.identifier,"k".toList,0⟩,
      ⟨.identifier,"Int8".toList,2⟩,⟨.comma,",".toList,6⟩,⟨.identifier,"v".toList,8⟩,
      ⟨.identifier,"Date".toList,10⟩] := by decide +kernel
  have agree := windowAlone d text 7 14 none _ (by decide) (by decide) tokens (by decide)
  change Agree _ _ _ (d.readColumn (text.slice 7 14) 0 7 none) at agree
  generalize d.readColumn text 7 14 none = x,
    d.readColumn (text.slice 7 14) 0 7 none = y at agree alone ⊢
  cases agree with
  | failed => contradiction
  | @read r r' both =>
    obtain ⟨column,next⟩ := both
    obtain ⟨same,stop⟩ := Prod.mk.inj (Except.ok.inj alone)
    dsimp only [Except.map]
    rw [column,next,same,stop]

end Dialect
end ColumnDecl
