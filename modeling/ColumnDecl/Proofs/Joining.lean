import ColumnDecl.Proofs.Declaration.Excerpt
import ColumnDecl.Proofs.Token.Window

/-! Lists of declarations joined by a comma, and cut at the commas between declarations. -/
namespace ColumnDecl.Dialect
open Token Declaration

theorem seriesSome {s : Scope} {ts : List Token} {cs : List Column} (h : Series s ts cs)
    (some : cs ≠ []) : ts ≠ [] := by
  cases h with
  | none => contradiction
  | last | more => exact List.cons_ne_nil _ _

theorem parseJoined {d : Dialect} {a b : Text} {as bs : List Column} (left : d.parse a = .ok as)
    (right : d.parse b = .ok bs) (some : as ≠ []) (some' : bs ≠ []) (nested : NestedText a) :
    d.parse (a ++ ',' :: b) = .ok (as ++ bs) := by
  obtain ⟨ts,lexed,series⟩ := parseExact.mp left
  obtain ⟨us,lexed',series'⟩ := parseExact.mp right
  obtain ⟨_,lexed'',balanced⟩ := nested
  cases lexesUnique lexed (streamExact.mp lexed'')
  have front : a ++ ',' :: b = [] ++ (a ++ ',' :: b) := rfl
  have back : a ++ ',' :: b = (a ++ [',']) ++ (b ++ []) := by simp
  obtain ⟨ts',first,same⟩ := insertionTokens (d := d) rfl front lexed
  obtain ⟨us',last,same'⟩ := insertionTokens (d := d) rfl back lexed'
  have later : us' ≠ [] := by
    intro none
    have sizes := same'.length_eq
    rw [none] at sizes
    exact seriesSome series' some' (List.length_eq_zero_iff.mp sizes)
  have behind : Series (d.scope (a ++ ',' :: b) (a ++ ',' :: b).length) us' bs := by
    have carried : Series (insertion d d rfl back).target (us' ++ []) (bs ++ []) :=
      seriesCarried rfl series' same' trivial (.inl rfl) (fun _ _ _ read => .last read) some'
    rwa [List.append_nil,List.append_nil] at carried
  have joined : Lexes 0 (a ++ ',' :: b) (ts' ++ ⟨.comma,[','],0 + a.length⟩ :: us') := by
    refine lexesJoined first (lexesBreak rfl rfl rfl ?_) rfl
    rwa [List.length_append,List.length_singleton,← Nat.zero_add a.length] at last
  refine parseExact.mpr ⟨_,joined,?_⟩
  exact seriesCarried (m := insertion d d rfl front) rfl series same rfl (.inr (nestedLevel balanced))
    (fun _ _ _ read => seriesMore read rfl later behind) some

/-- The texts of `n` declarations between commas and of all that follows, from `start` on. Each comma
is where the declaration in front of it was found to end. -/
def pieces (d : Dialect) (text : Text) (start : Nat) : Nat → Except Failure (List Text)
  | 0 => .ok [text.drop start]
  | n + 1 => do
    let r ← d.readColumn text start text.length none
    let more ← pieces d text (r.next + 1) n
    .ok (text.slice start r.next :: more)

theorem declarationAnywhere {s : Scope} {inner : Reader} {a b : Nat} {t : Token} {ts : List Token}
    {r : Column × List Token} (h : declaration s inner true a (t :: ts) = .ok r) :
    declaration s inner true b (t :: ts) = .ok r := by
  unfold declaration at h ⊢
  dsimp only at h ⊢
  split at h
  next => contradiction
  next visible =>
    rw [if_neg visible]
    exact h

theorem readColumnBefore {d : Dialect} {text : Text} {front ts rest : List Token} {t e : Token}
    {a : Nat} {c : Column} (lexed : Lexes 0 text (front ++ t :: ts))
    (before : ∀ x ∈ front, x.stop ≤ a) (behind : ∀ x ∈ t :: ts, a ≤ x.start)
    (read : outermost (d.scope text text.length) true t.start (t :: ts) = .ok (c, e :: rest)) :
    d.readColumn text a text.length none = .ok ⟨c,e.start⟩ := by
  have bounds := lexesBounds lexed
  have shown : (Window.mk text (front ++ t :: ts)).between a text.length = t :: ts := by
    apply Window.betweenBehind
    · intro x hx
      have := bounds x (List.mem_append_left _ hx)
      have := before x hx
      omega
    · intro x hx
      have := bounds x (List.mem_append_right _ hx)
      exact ⟨behind x hx,by omega⟩
  obtain ⟨first,skipped⟩ := Window.skipLayoutWhole (w := ⟨text,front ++ t :: ts⟩) a
  refine bindOk.mpr ⟨⟨text,front ++ t :: ts⟩,?_,bindOk.mpr ⟨first,skipped,?_⟩⟩
  · rw [Window.ofWhole lexed]
    rfl
  · rw [shown]
    exact bindOk.mpr ⟨_,declarationAnywhere read,rfl⟩

theorem pieceParsed {d : Dialect} {text : Text} {front used back ts : List Token} {t : Token}
    {a b : Nat} {c : Column} (lexed : Lexes 0 text (front ++ t :: ts)) (whole : t :: ts = used ++ back)
    (order : a ≤ b) (fits : b ≤ text.length) (before : ∀ x ∈ front, x.stop ≤ a)
    (inside : ∀ x ∈ used, a ≤ x.start ∧ x.stop ≤ b) (after : ∀ x ∈ back, b ≤ x.start)
    (read : outermost (d.scope text text.length) true t.start (t :: ts) = .ok (c, back)) :
    d.parse (text.slice a b) = .ok [c] := by
  obtain ⟨used',whole',_,carry⟩ := outermostCarries read
  cases List.append_cancel_right (whole.symm.trans whole')
  rw [whole] at lexed
  have core := lexesSlice lexed order fits before inside after
  obtain ⟨us,again,same⟩ :=
    excerptTokens (s := d.scope text text.length) (d := d) rfl ⟨order,fits⟩ core
  obtain ⟨u,us',shape,read'⟩ := carry _ us [] rfl rfl same ⟨trivial,.inl rfl⟩
  rw [List.append_nil] at shape
  exact parseExact.mpr ⟨u :: us',shape ▸ again,.last read'⟩

theorem joinCons {gap p : Text} {ps : List Text} (some : ps ≠ []) :
    Text.join gap (p :: ps) = p ++ gap ++ Text.join gap ps := by
  cases ps with
  | nil => contradiction
  | cons q ps => rfl

theorem sliceBefore {t : Text} {a b : Nat} {x : Text} (order : a ≤ b)
    (here : t.slice b (b + x.length) = x) :
    t.slice a b ++ x ++ t.drop (b + x.length) = t.drop a := by
  have rest : t.drop b = x ++ t.drop (b + x.length) := by
    rw [← List.take_append_drop x.length (t.drop b),List.drop_drop]
    congr 1
    rw [Text.slice,Nat.add_sub_cancel_left] at here
    exact here
  rw [List.append_assoc,← rest,Text.slice]
  conv_rhs => rw [← List.take_append_drop (b - a) (t.drop a),List.drop_drop]
  rw [Nat.add_sub_cancel' order]

theorem commaParts {text : Text} {front used rest : List Token} {e : Token}
    (lexed : Lexes 0 text (front ++ (used ++ e :: rest))) (comma : e.tag = .comma) :
    e.stop = e.start + 1 ∧ e.stop ≤ text.length ∧ text.slice e.start (e.start + 1) = [','] ∧
      (∀ x ∈ used, x.stop ≤ e.start) ∧ (∀ x ∈ rest, e.start + 1 ≤ x.start) := by
  obtain ⟨_,inner,_⟩ := List.pairwise_append.mp (lexesOrdered lexed)
  obtain ⟨_,last,across⟩ := List.pairwise_append.mp inner
  have bound := lexesBounds lexed e (by simp)
  have raw := lexesComma lexed (by simp) comma
  have here := lexesRaw lexed (x := e) (by simp)
  have stop : e.stop = e.start + 1 := by rw [Token.stop,raw]; rfl
  rw [Nat.sub_zero,Nat.sub_zero,stop,raw] at here
  refine ⟨stop,by omega,here.symm,?_,?_⟩
  · intro x hx
    exact across x hx e List.mem_cons_self
  · intro x hx
    rw [← stop]
    exact List.rel_of_pairwise_cons last hx

theorem piecesSeries {d : Dialect} {text : Text} {front ts : List Token} {cs : List Column} {a : Nat}
    (lexed : Lexes 0 text (front ++ ts)) (series : Series (d.scope text text.length) ts cs)
    (before : ∀ x ∈ front, x.stop ≤ a) (behind : ∀ x ∈ ts, a ≤ x.start) (fits : a ≤ text.length)
    (some : cs ≠ []) : ∃ ps, d.pieces text a (cs.length - 1) = .ok ps ∧
      List.Forall₂ (fun p c => d.parse p = .ok [c]) ps cs ∧ Text.join [','] ps = text.drop a := by
  induction series generalizing front a with
  | none => contradiction
  | @last t ts c read =>
    refine ⟨[text.drop a],rfl,.cons ?_ .nil,rfl⟩
    have bounds := lexesBounds lexed
    have whole : t :: ts = (t :: ts) ++ [] := (List.append_nil _).symm
    have parsed := pieceParsed lexed whole fits (Nat.le_refl _) before
      (fun x hx => ⟨behind x hx,by have := bounds x (List.mem_append_right _ hx); omega⟩)
      (fun x hx => absurd hx List.not_mem_nil) read
    rwa [Text.slice,List.take_of_length_le (by rw [List.length_drop])] at parsed
  | @more t ts c e rest cs read comma later shorter next ih =>
    obtain ⟨used,whole,_⟩ := outermostCarries read
    have tokens := lexed
    rw [whole] at tokens
    obtain ⟨stop,room,here,ends,others⟩ := commaParts tokens comma
    have reach : a ≤ e.start := behind e (by rw [whole]; simp)
    -- The induction goes on behind the comma, with all that was read in front of it.
    have some' : cs ≠ [] := by
      intro none
      rw [none] at next
      cases next
      exact later rfl
    have front' : ∀ x ∈ front ++ used ++ [e], x.stop ≤ e.start + 1 := by
      intro x hx
      rcases List.mem_append.mp hx with hx | hx
      · rcases List.mem_append.mp hx with hx | hx
        · have := before x hx; omega
        · have := ends x hx; omega
      · cases List.mem_singleton.mp hx
        exact Nat.le_of_eq stop
    have lexed' : Lexes 0 text (front ++ used ++ [e] ++ rest) := by simpa using tokens
    obtain ⟨ps,cuts,each,joined⟩ := ih lexed' front' others (by omega) some'
    have read' := readColumnBefore lexed before behind read
    have parsed := pieceParsed lexed whole reach (by omega) before
      (fun x hx => ⟨behind x (by rw [whole]; simp [hx]),ends x hx⟩)
      (fun x hx => by
        rcases List.mem_cons.mp hx with rfl | hx
        · exact Nat.le_refl _
        · have := others x hx; omega) read
    refine ⟨text.slice a e.start :: ps,?_,.cons parsed each,?_⟩
    · have count : (c :: cs).length - 1 = cs.length - 1 + 1 := by
        have := List.length_pos_of_ne_nil some'
        rw [List.length_cons]
        omega
      rw [count]
      exact bindOk.mpr ⟨_,read',bindOk.mpr ⟨ps,cuts,rfl⟩⟩
    · have filled : ps ≠ [] := by
        intro same
        subst same
        cases each
        exact some' rfl
      rw [joinCons filled,joined]
      exact sliceBefore (x := [',']) reach here

theorem joinedAndCut (d : Dialect) :
    (∀ a b as bs, d.parse a = .ok as → d.parse b = .ok bs → as ≠ [] → bs ≠ [] → NestedText a →
      d.parse (a ++ ',' :: b) = .ok (as ++ bs)) ∧
    (∀ text cs, d.parse text = .ok cs → cs ≠ [] → ∃ ps,
      d.pieces text 0 (cs.length - 1) = .ok ps ∧
      List.Forall₂ (fun p c => d.parse p = .ok [c]) ps cs ∧ Text.join [','] ps = text) := by
  constructor
  · intro a b as bs left right some some' nested
    exact parseJoined left right some some' nested
  · intro text cs h some
    obtain ⟨ts,lexed,series⟩ := parseExact.mp h
    have whole : Lexes 0 text ([] ++ ts) := lexed
    exact piecesSeries whole series (fun x hx => absurd hx List.not_mem_nil)
      (fun x _ => Nat.zero_le x.start) (Nat.zero_le _) some

theorem joinedPair :
    let d : Dialect := ⟨⟨[("TUPLE".toList,.tuple),("STRING".toList,.string)],1⟩,1⟩
    let a := "x Tuple(String)".toList
    let b := " y String null ttl f(1, [2)".toList
    let x : Column := ⟨"x".toList,"Tuple(String)".toList,.tuple,false,false,false,1,
      [⟨[],"String".toList,.string,false,false,false,1,[],none,none,none,none,none,none⟩],none,none,
      none,none,none,none⟩
    let y : Column := ⟨"y".toList,"String null".toList,.string,true,false,false,1,[],none,none,none,
      none,none,none⟩
    d.parse (a ++ ',' :: b) = .ok [x,y] ∧ ∃ ps, d.pieces (a ++ ',' :: b) 0 1 = .ok ps ∧
      List.Forall₂ (fun p c => d.parse p = .ok [c]) ps [x,y] ∧
      Text.join [','] ps = a ++ ',' :: b := by
  intro d a b x y
  have left : d.parse a = .ok [x] := by decide +kernel
  have right : d.parse b = .ok [y] := by decide +kernel
  have joined := (joinedAndCut d).1 a b [x] [y] left right (List.cons_ne_nil x [])
    (List.cons_ne_nil y []) (by decide +kernel)
  exact ⟨joined,(joinedAndCut d).2 _ [x,y] joined (List.cons_ne_nil x [y])⟩

end ColumnDecl.Dialect
