import ColumnDecl.Proofs.Declaration.Passage
import ColumnDecl.Proofs.Token.Spans
import ColumnDecl.Proofs.Token.Words

/-! Trimmed texts. A text loses what stands in front of its first token and behind its last one, as no
blank is left where these begin and end. -/
namespace ColumnDecl

namespace Text

/-- Neither the first character is blank nor the last one. -/
def Tight (t : Text) : Prop :=
  (∀ c ∈ t.head?, isBlank c = false) ∧ ∀ c ∈ t.getLast?, isBlank c = false

theorem blanksDropped {a t : Text} (blank : ∀ c ∈ a, isBlank c = true)
    (first : ∀ c ∈ t.head?, isBlank c = false) : (a ++ t).dropWhile isBlank = t := by
  rw [List.dropWhile_append_of_pos blank]
  rcases t with _ | ⟨c,t⟩
  · rfl
  · exact List.dropWhile_cons_of_neg (by simpa using first c rfl)

theorem trimAround {a t b : Text} (before : ∀ c ∈ a, isBlank c = true)
    (after : ∀ c ∈ b, isBlank c = true) (tight : t.Tight) (some : t ≠ []) :
    trim (a ++ (t ++ b)) = t := by
  have first : ∀ c ∈ (t ++ b).head?, isBlank c = false := by
    rw [List.head?_append_of_ne_nil _ some]
    exact tight.1
  have behind : ∀ c ∈ b.reverse, isBlank c = true := fun c hc => after c (List.mem_reverse.mp hc)
  have last : ∀ c ∈ t.reverse.head?, isBlank c = false := by
    rw [List.head?_reverse]
    exact tight.2
  rw [trim,blanksDropped before first,List.reverse_append,blanksDropped behind last,
    List.reverse_reverse]

theorem visibleDropped (t : Text) :
    (t.dropWhile isBlank).filter (!isBlank ·) = t.filter (!isBlank ·) := by
  induction t with
  | nil => rfl
  | cons c t ih =>
    rw [List.dropWhile_cons]
    split
    next blank => rw [ih,List.filter_cons_of_neg (by simp [blank])]
    next => rfl

theorem trimVisible (t : Text) : (trim t).filter (!isBlank ·) = t.filter (!isBlank ·) := by
  rw [trim,List.filter_reverse,visibleDropped,List.filter_reverse,List.reverse_reverse,
    visibleDropped]

section
variable {t : Text} {a b : Nat}

theorem sliceParts (order : a ≤ b) : t.take a ++ (t.slice a b ++ t.drop b) = t := by
  have tail : (t.drop a).drop (b - a) = t.drop b := by
    rw [List.drop_drop,Nat.add_sub_cancel' order]
  rw [slice,← tail,List.take_append_drop,List.take_append_drop]

/- Where a trimmed text stands there is nothing behind it. -/
theorem trimBehind (order : a ≤ b) (trimmed : t.slice a b = trim t) :
    ∀ c ∈ t.drop b, isBlank c = true := by
  have visible := trimVisible t
  rw [← trimmed] at visible
  conv_rhs at visible => rw [← sliceParts (t := t) order]
  rw [List.filter_append,List.filter_append] at visible
  have none : (t.drop b).filter (!isBlank ·) = [] := by
    have sizes := congrArg List.length visible
    rw [List.length_append,List.length_append] at sizes
    exact List.length_eq_zero_iff.mp (by omega)
  intro c hc
  simpa using List.filter_eq_nil_iff.mp none c hc

theorem sliceHead (some : a < b) : (t.slice a b).head? = t[a]? := by
  rw [slice,List.head?_eq_getElem?,List.getElem?_take_of_lt (by omega),List.getElem?_drop,
    Nat.add_zero]

theorem sliceLast (some : a < b) (fits : b ≤ t.length) : (t.slice a b).getLast? = t[b - 1]? := by
  rw [List.getLast?_eq_getElem?,sliceFits fits,slice,List.getElem?_take_of_lt (by omega),
    List.getElem?_drop]
  congr 1
  omega

end
end Text

namespace Token

/-- A word, or the parenthesis that closes a list. -/
def Bounding (x : Token) : Prop := x.tag = .identifier ∨ x.tag = .closing

section
variable {text : Text} {ts : List Token} (lexed : Lexes 0 text ts) {x y : Token}
include lexed

theorem boundingPlain (member : x ∈ ts) (bounding : x.Bounding) :
    ∀ c ∈ x.raw, Text.isBlank c = false := by
  rcases bounding with tag | tag
  · intro c hc
    rcases wordNames lexed member tag c hc with name | rfl
    · exact nameVisible name
    · decide
  · obtain ⟨c,t,n,found,raw⟩ := lexesTags lexed member
    rw [raw]
    rw [tag] at found
    cases lexemeRule found with
    | quoted quote => rcases quoteTags quote with other | other <;> cases other
    | single alone =>
      have closing : c = ')' := by
        unfold singleTag? at alone
        grind
      subst closing
      simp
      decide

/- No such token is lost when a text is trimmed. -/
theorem trimKeeps (member : x ∈ ts) (bounding : x.Bounding) {a b : Nat} (order : a ≤ b)
    (trimmed : text.slice a b = Text.trim text) : x.start < b := by
  by_contra behind
  have bounds := lexesBounds lexed x member
  have raw := lexesRaw lexed member
  rw [Nat.sub_zero,Nat.sub_zero] at raw
  obtain ⟨c,here⟩ : ∃ c, text[x.start]? = some c :=
    ⟨_,List.getElem?_eq_getElem (by omega)⟩
  have first : x.raw.head? = some c := by rw [raw,Text.sliceHead bounds.2.1,here]
  have inside : c ∈ text.drop b := by
    apply List.mem_of_getElem? (i := x.start - b)
    rw [List.getElem?_drop,show b + (x.start - b) = x.start by omega,here]
  have visible := boundingPlain lexed member bounding c (List.mem_of_mem_head? first)
  rw [Text.trimBehind order trimmed c inside] at visible
  contradiction

theorem sliceTight (first : x ∈ ts) (last : y ∈ ts) (left : x.Bounding) (right : y.Bounding)
    (order : x.start < y.stop) : (text.slice x.start y.stop).Tight := by
  have xBounds := lexesBounds lexed x first
  have yBounds := lexesBounds lexed y last
  rw [Nat.zero_add] at yBounds
  have xRaw := lexesRaw lexed first
  have yRaw := lexesRaw lexed last
  rw [Nat.sub_zero,Nat.sub_zero] at xRaw yRaw
  constructor
  · intro c hc
    rw [Text.sliceHead order,← Text.sliceHead xBounds.2.1,← xRaw] at hc
    exact boundingPlain lexed first left c (List.mem_of_mem_head? hc)
  · intro c hc
    rw [Text.sliceLast order yBounds.2.2,← Text.sliceLast yBounds.2.1 yBounds.2.2,← yRaw] at hc
    exact boundingPlain lexed last right c (List.mem_of_mem_getLast? hc)

end

/- Only layout is lost. -/
theorem trimSpan {text : Text} {front rest : List Token} {x y : Token}
    (lexed : Lexes 0 text (x :: rest)) (shape : x :: rest = front ++ [y])
    (tight : (text.slice x.start y.stop).Tight) :
    Text.trim text = text.slice x.start y.stop := by
  have last : y ∈ x :: rest := by rw [shape]; simp
  have bounds := lexesBounds lexed
  have behind : ∀ z ∈ x :: rest, x.start ≤ z.start := by
    intro z hz
    rcases List.mem_cons.mp hz with rfl | hz
    · exact Nat.le_refl _
    · exact Nat.le_trans (extent x) (List.rel_of_pairwise_cons (lexesOrdered lexed) hz)
  have ahead : ∀ z ∈ x :: rest, z.stop ≤ y.stop := by
    have ordered := lexesOrdered lexed
    rw [shape] at ordered ⊢
    intro z hz
    rcases List.mem_append.mp hz with hz | hz
    · exact Nat.le_trans ((List.pairwise_append.mp ordered).2.2 z hz y (by simp)) (extent y)
    · cases List.mem_singleton.mp hz
      exact Nat.le_refl _
  have order : x.start < y.stop := Nat.lt_of_lt_of_le (bounds x List.mem_cons_self).2.1
    (ahead x List.mem_cons_self)
  have fits : y.stop ≤ text.length := by simpa using (bounds y last).2.2
  have layout : ∀ i c, text[i]? = some c → i < x.start ∨ y.stop ≤ i → Text.isBlank c = true := by
    intro i c here outside
    refine Text.layoutIsBlank (lexesBetween lexed here fun z hz both => ?_)
    have := behind z hz
    have := ahead z hz
    omega
  conv_lhs => rw [← Text.sliceParts (t := text) (Nat.le_of_lt order)]
  refine Text.trimAround ?_ ?_ tight ?_
  · intro c hc
    obtain ⟨i,here⟩ := List.mem_iff_getElem?.mp hc
    rw [List.getElem?_take] at here
    split at here
    next inside => exact layout i c here (.inl inside)
    next => contradiction
  · intro c hc
    obtain ⟨i,here⟩ := List.mem_iff_getElem?.mp hc
    rw [List.getElem?_drop] at here
    exact layout _ c here (.inr (Nat.le_add_right _ _))
  · intro none
    have size := Text.sliceFits (a := x.start) fits
    rw [none,List.length_nil] at size
    omega

end Token
end ColumnDecl
