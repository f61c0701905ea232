import ColumnDecl.Proofs.Token.Along

/-! The spans of the tokens of a text. They leave out nothing but layout, and a text that is cut where
a token ends or begins keeps the tokens on either side as they were. -/
namespace ColumnDecl.Token

/-- All that may stand between tokens. -/
def gaps : List Char := [' ', '\t', '\n', '\r', '\x0c', '\x0b']

theorem layoutGap {c : Char} : Text.isLayout c = true ↔ c ∈ gaps := by
  simp only [Text.isLayout,gaps,Bool.or_eq_true,beq_iff_eq,List.mem_cons,List.not_mem_nil,or_false]
  grind

structure Covers (text : Text) (ts : List Token) : Prop where
  inside : ∀ x ∈ ts, x.start < x.stop ∧ x.stop ≤ text.length
  ordered : ts.Pairwise fun x y => x.start < y.start ∧ x.stop ≤ y.start
  between : ∀ i c, text[i]? = some c → (∀ x ∈ ts, ¬(x.start ≤ i ∧ i < x.stop)) → c ∈ gaps
  source : ∀ x ∈ ts, x.raw = text.slice x.start x.stop
  quoted : ∀ x ∈ ts, x.tag = .string ∨ x.tag = .quotedIdentifier →
    Text.unquote? x.raw = some x.value
  plain : ∀ x ∈ ts, ¬(x.tag = .string ∨ x.tag = .quotedIdentifier) → x.value = x.raw

theorem lexesBetween {p : Nat} {t : Text} {ts : List Token} (h : Lexes p t ts) {i : Nat} {c : Char}
    (here : t[i]? = some c) (outside : ∀ x ∈ ts, ¬(x.start ≤ p + i ∧ p + i < x.stop)) :
    Text.isLayout c = true := by
  induction h generalizing i with
  | done p => contradiction
  | @gap p d t ts layout rest ih =>
    rcases i with _ | i
    · cases here
      exact layout
    · refine ih here fun x hx both => outside x hx ?_
      omega
  | @token p d t tag n ts visible found rest ih =>
    have bound := lexemeBound found
    have first := outside _ List.mem_cons_self
    simp only [stop,List.length_cons,List.length_take,Nat.min_eq_left bound] at first
    -- Behind the token the search goes on in the text that is left.
    obtain ⟨k,rfl⟩ : ∃ k, i = n + k + 1 := ⟨i - n - 1,by omega⟩
    rw [List.getElem?_cons_succ,← List.getElem?_drop] at here
    refine ih here fun x hx both => outside x (List.mem_cons_of_mem _ hx) ?_
    omega

theorem valueWritten {x : Token} (visible : x.raw ≠ []) :
    (x.tag = .string ∨ x.tag = .quotedIdentifier → Text.unquote? x.raw = some x.value) ∧
    (¬(x.tag = .string ∨ x.tag = .quotedIdentifier) → x.value = x.raw) := by
  obtain ⟨c,body,raw⟩ := List.exists_cons_of_ne_nil visible
  unfold value
  constructor
  · intro quoted
    rcases quoted with tag | tag <;> rw [tag,raw] <;> rfl
  · intro other
    split
    next tag => exact absurd (.inl tag) other
    next tag => exact absurd (.inr tag) other
    next => rfl

theorem lexesCovers {t : Text} {ts : List Token} (h : Lexes 0 t ts) : Covers t ts := by
  have bounds := lexesBounds h
  have written : ∀ x ∈ ts, x.raw ≠ [] := by
    intro x hx none
    have := (bounds x hx).2.1
    simp [stop,none] at this
  refine ⟨?_,?_,?_,?_,?_,?_⟩
  · intro x hx
    have := bounds x hx
    omega
  · refine (lexesOrdered h).imp_of_mem fun {x y} hx _ order => ?_
    have := bounds x hx
    omega
  · intro i c here outside
    rw [← layoutGap]
    exact lexesBetween h here (by simpa using outside)
  · intro x hx
    exact lexesRaw h hx
  · intro x hx
    exact (valueWritten (written x hx)).1
  · intro x hx
    exact (valueWritten (written x hx)).2

/-! Cutting at a token. -/

/-- A token in what is left of its text without the first `n` characters. -/
def behindCut (n : Nat) (x : Token) : Token := { x with start := x.start - n }

theorem shiftedBack {p n : Nat} {ts us : List Token} (h : List.Forall₂ (Shifted p 0 n) ts us) :
    us = ts.map (behindCut p) :=
  shiftedPlaced h

section
variable {t : Text} {front back : List Token} {x : Token} (h : Lexes 0 t (front ++ x :: back))
include h

theorem lexesUntil : Lexes 0 (t.take x.stop) (front ++ [x]) := by
  have bounds := (lexesBounds h x (by simp)).2.2
  obtain ⟨_,tail,before⟩ := List.pairwise_append.mp (lexesOrdered h)
  have size : 0 + (t.take x.stop).length = x.stop := by rw [List.length_take]; omega
  have whole : front ++ x :: back = (front ++ [x]) ++ back := by simp
  rw [whole,← List.take_append_drop x.stop t] at h
  have left : ∀ y ∈ front ++ [x], y.stop ≤ 0 + (t.take x.stop).length := by
    intro y hy
    rw [size]
    rcases List.mem_append.mp hy with hy | hy
    · exact Nat.le_trans (before y hy x List.mem_cons_self) (extent x)
    · cases List.mem_singleton.mp hy
      exact Nat.le_refl _
  have right : ∀ y ∈ back, 0 + (t.take x.stop).length ≤ y.start := by
    intro y hy
    rw [size]
    exact List.rel_of_pairwise_cons tail hy
  exact (lexesCut h left right).1

theorem lexesFrom : Lexes 0 (t.drop x.start) ((x :: back).map (behindCut x.start)) := by
  have bounds := lexesBounds h x (by simp)
  obtain ⟨_,tail,before⟩ := List.pairwise_append.mp (lexesOrdered h)
  have size : 0 + (t.take x.start).length = x.start := by rw [List.length_take]; omega
  rw [← List.take_append_drop x.start t] at h
  have left : ∀ y ∈ front, y.stop ≤ 0 + (t.take x.start).length := by
    intro y hy
    rw [size]
    exact before y hy x List.mem_cons_self
  have right : ∀ y ∈ x :: back, 0 + (t.take x.start).length ≤ y.start := by
    intro y hy
    rw [size]
    rcases List.mem_cons.mp hy with rfl | hy
    · exact Nat.le_refl _
    · exact Nat.le_trans (extent x) (List.rel_of_pairwise_cons tail hy)
  obtain ⟨_,rest⟩ := lexesCut h left right
  rw [size] at rest
  obtain ⟨us,moved,same⟩ := lexesMoved rest 0
  rwa [shiftedBack same] at moved

end

theorem lossless {text : Text} {ts : List Token} (lexed : stream text = .ok ts) :
    Covers text ts ∧ ∀ front x back, ts = front ++ x :: back →
      stream (text.take x.stop) = .ok (front ++ [x]) ∧
      stream (text.drop x.start) = .ok ((x :: back).map (behindCut x.start)) := by
  have h := streamExact.mp lexed
  refine ⟨lexesCovers h,?_⟩
  intro front x back whole
  rw [whole] at h
  exact ⟨streamExact.mpr (lexesUntil h),streamExact.mpr (lexesFrom h)⟩

/- Nothing stands between the name, the number and the two quoted texts. -/
theorem losslessAdjacent :
    let text : Text := " n.a-1e5'x''y'\"z\"".toList
    let name : Token := ⟨.identifier,"n.a".toList,1⟩
    let number : Token := ⟨.number,"-1e5".toList,4⟩
    let string : Token := ⟨.string,"'x''y'".toList,8⟩
    let quoted : Token := ⟨.quotedIdentifier,"\"z\"".toList,14⟩
    Covers text [name,number,string,quoted] ∧
      stream " n.a-1e5'x''y'".toList = .ok [name,number,string] ∧
      stream "'x''y'\"z\"".toList = .ok [{ string with start := 0 },{ quoted with start := 6 }] := by
  intro text name number string quoted
  have lexed : stream text = .ok [name,number,string,quoted] := by decide +kernel
  obtain ⟨covers,cut⟩ := lossless lexed
  obtain ⟨until_,from_⟩ := cut [name,number] string [quoted] rfl
  exact ⟨covers,until_,from_⟩

end ColumnDecl.Token
