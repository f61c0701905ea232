import ColumnDecl.Proofs.Token.Extent
import ColumnDecl.Token.Stream
import Mathlib.Data.List.Forall2

/-! The tokens of a text as a relation, with the offset at which the text begins. Lines and the
enclosing text matter only to faults. Lexing is local: a text is cut between any two tokens, and two
texts are joined where the second one begins with a break. -/
namespace ColumnDecl.Token

inductive Lexes : Nat → Text → List Token → Prop where
  | done (p : Nat) : Lexes p [] []
  | gap {p c t ts} (layout : Text.isLayout c = true) (rest : Lexes (p + 1) t ts) :
      Lexes p (c :: t) ts
  | token {p c t tag n ts} (visible : Text.isLayout c = false)
      (found : lexeme? c t = some (tag, n)) (rest : Lexes (p + 1 + n) (t.drop n) ts) :
      Lexes p (c :: t) (⟨tag, c :: t.take n, p⟩ :: ts)

theorem lexesSound {source : Text} {p line : Nat} {t : Text} {ts : List Token}
    (h : streamFrom source p line t = .ok ts) : Lexes p t ts := by
  fun_induction streamFrom source p line t generalizing ts with
  | case1 => cases h; exact .done _
  | case2 p line rest ih => exact .gap (by decide) (ih h)
  | case3 p line c rest newline layout ih => exact .gap layout (ih h)
  | case4 => contradiction
  | case5 => contradiction
  | case6 p line c rest newline layout tag n found tokens _ ih =>
    cases h
    exact .token (by simpa using layout) found (ih (by assumption))

theorem lexesComplete {p : Nat} {t : Text} {ts : List Token} (h : Lexes p t ts)
    (source : Text) (line : Nat) : streamFrom source p line t = .ok ts := by
  induction h generalizing line with
  | done p => simp [streamFrom]
  | @gap p c t ts layout rest ih =>
    unfold streamFrom
    by_cases newline : c = '\n'
    · rw [if_pos newline]; exact ih _
    · rw [if_neg newline,if_pos layout]; exact ih _
  | @token p c t tag n ts visible found rest ih =>
    unfold streamFrom
    have newline : c ≠ '\n' := by
      intro same
      subst same
      contradiction
    rw [if_neg newline,if_neg (by simp [visible])]
    simp [found,ih]

theorem streamExact {t : Text} {ts : List Token} : stream t = .ok ts ↔ Lexes 0 t ts :=
  ⟨lexesSound,fun h => lexesComplete h t 1⟩

theorem lexesUnique {p : Nat} {t : Text} {ts us : List Token} (left : Lexes p t ts)
    (right : Lexes p t us) : ts = us := by
  have first := lexesComplete left t 1
  rw [lexesComplete right t 1] at first
  exact (Except.ok.inj first).symm

/-! Where tokens lie. -/

theorem lexesBounds {p : Nat} {t : Text} {ts : List Token} (h : Lexes p t ts) :
    ∀ x ∈ ts, p ≤ x.start ∧ x.start < x.stop ∧ x.stop ≤ p + t.length := by
  induction h with
  | done p => simp
  | gap layout rest ih =>
    intro x hx
    have := ih x hx
    simp only [List.length_cons]; omega
  | @token p c t tag n ts visible found rest ih =>
    have bound := lexemeBound found
    intro x hx
    rcases List.mem_cons.mp hx with rfl | hx
    · simp only [stop,List.length_cons,List.length_take]; omega
    · have := ih x hx
      simp only [List.length_drop,List.length_cons] at this ⊢; omega

theorem lexesOrdered {p : Nat} {t : Text} {ts : List Token} (h : Lexes p t ts) :
    ts.Pairwise (fun x y => x.stop ≤ y.start) := by
  induction h with
  | done p => exact .nil
  | gap layout rest ih => exact ih
  | @token p c t tag n ts visible found rest ih =>
    have bound := lexemeBound found
    refine .cons (fun y hy => ?_) ih
    have := (lexesBounds rest y hy).1
    simp only [stop,List.length_cons,List.length_take]; omega

theorem lexesRaw {p : Nat} {t : Text} {ts : List Token} (h : Lexes p t ts) {x : Token}
    (member : x ∈ ts) : x.raw = t.slice (x.start - p) (x.stop - p) := by
  induction h with
  | done p => contradiction
  | @gap p c t ts layout rest ih =>
    have bound := lexesBounds rest x member
    rw [ih member,show x.start - p = x.start - (p + 1) + 1 by omega,
      show x.stop - p = x.stop - (p + 1) + 1 by omega]
    simp [Text.slice]
  | @token p c t tag n ts visible found rest ih =>
    rcases List.mem_cons.mp member with rfl | member
    · simp [Text.slice,stop]
    · have bound := lexesBounds rest x member
      rw [ih member,show x.start - p = x.start - (p + 1 + n) + n + 1 by omega,
        show x.stop - p = x.stop - (p + 1 + n) + n + 1 by omega]
      simp only [Text.slice,List.drop_succ_cons,List.drop_drop]
      congr 1
      · omega
      · congr 1; omega

theorem lexesTags {p : Nat} {t : Text} {ts : List Token} (h : Lexes p t ts) {x : Token}
    (member : x ∈ ts) : ∃ c t n, lexeme? c t = some (x.tag,n) ∧ x.raw = c :: t.take n := by
  induction h with
  | done p => contradiction
  | gap layout rest ih => exact ih member
  | @token p c t tag n ts visible found rest ih =>
    rcases List.mem_cons.mp member with rfl | member
    · exact ⟨c,t,n,found,rfl⟩
    · exact ih member

theorem lexesComma {p : Nat} {t : Text} {ts : List Token} (h : Lexes p t ts) {x : Token}
    (member : x ∈ ts) (comma : x.tag = .comma) : x.raw = [','] := by
  induction h with
  | done p => contradiction
  | gap layout rest ih => exact ih member
  | @token p c t tag n ts visible found rest ih =>
    rcases List.mem_cons.mp member with rfl | member
    · cases comma
      obtain ⟨rfl,rfl⟩ := lexemeComma found
      rfl
    · exact ih member

/-- The same token in two texts, `d` characters into a passage of `n` characters that begins at
`p` in the one and at `q` in the other. -/
def Shifted (p q n : Nat) (t u : Token) : Prop :=
  t.tag = u.tag ∧ t.raw = u.raw ∧ ∃ d, t.start = p + d ∧ u.start = q + d ∧ d + t.raw.length ≤ n

theorem shiftedPlaced {p q n : Nat} {ts us : List Token} (h : List.Forall₂ (Shifted p q n) ts us) :
    us = ts.map fun t => { t with start := t.start - p + q } := by
  induction h with
  | nil => rfl
  | @cons t u ts us first rest ih =>
    obtain ⟨tag,raw,d,start,moved,_⟩ := first
    have same : u = { t with start := t.start - p + q } := by
      have place : u.start = t.start - p + q := by omega
      cases u
      cases tag
      cases raw
      cases place
      rfl
    rw [same,ih]
    rfl

theorem shiftedWithin {p q n m k : Nat} {t u : Token} (h : Shifted (p + k) (q + k) n t u)
    (fits : k + n ≤ m) : Shifted p q m t u := by
  obtain ⟨tag,raw,d,start,other,inside⟩ := h
  exact ⟨tag,raw,k + d,by omega,by omega,by omega⟩

theorem lexesMoved {p : Nat} {t : Text} {ts : List Token} (h : Lexes p t ts) (q : Nat) :
    ∃ us, Lexes q t us ∧ List.Forall₂ (Shifted p q t.length) ts us := by
  induction h generalizing q with
  | done p => exact ⟨[],.done q,.nil⟩
  | @gap p c t ts layout rest ih =>
    obtain ⟨us,hu,same⟩ := ih (q + 1)
    refine ⟨us,.gap layout hu,same.imp fun a b hab => ?_⟩
    exact shiftedWithin hab (by simp only [List.length_cons]; omega)
  | @token p c t tag n ts visible found rest ih =>
    obtain ⟨us,hu,same⟩ := ih (q + 1 + n)
    have bound := lexemeBound found
    refine ⟨_,.token visible found hu,.cons ?_ (same.imp fun a b hab => ?_)⟩
    · refine ⟨rfl,rfl,0,rfl,rfl,?_⟩
      simp only [List.length_cons,List.length_take]; omega
    · rw [Nat.add_assoc,Nat.add_assoc] at hab
      exact shiftedWithin hab (by simp only [List.length_drop,List.length_cons]; omega)

/-! Joining and cutting. -/

theorem lexesBreak {p : Nat} {c : Char} {t : Text} {tag : Tag} {ts : List Token}
    (breaks : isBreak c = true) (visible : Text.isLayout c = false)
    (single : singleTag? c = some tag) (rest : Lexes (p + 1) t ts) :
    Lexes p (c :: t) (⟨tag,[c],p⟩ :: ts) := by
  have found : lexeme? c t = some (tag, 0) := by rw [lexemeBreak breaks,single]; rfl
  exact .token visible found rest

theorem lexesJoined {p : Nat} {a u : Text} {ts us : List Token} (left : Lexes p a ts)
    (right : Lexes (p + a.length) u us) (broken : Broken u) : Lexes p (a ++ u) (ts ++ us) := by
  induction left with
  | done p => exact right
  | @gap p c t ts layout rest ih =>
    refine .gap layout (ih ?_)
    rwa [List.length_cons,Nat.add_comm t.length,← Nat.add_assoc] at right
  | @token p c t tag n ts visible found rest ih =>
    have bound := lexemeBound found
    -- A quoted token that ended early would leave its quote to the next token, and nothing closes that.
    have proper : ∀ r, t.drop n = c :: r → lexeme? c r ≠ none := by
      intro r hr none
      rw [hr] at rest
      cases rest with
      | gap layout _ => rw [visible] at layout; contradiction
      | token _ some _ => rw [none] at some; contradiction
    have joined := ih (by
      rw [List.length_cons] at right
      rwa [List.length_drop,show p + 1 + n + (t.length - n) = p + (t.length + 1) by omega])
    rw [show t.take n = (t ++ u).take n from (List.take_append_of_le_length bound).symm]
    rw [← dropAppend u bound] at joined
    exact .token visible (lexemeExtended found broken proper) joined

theorem lexesCut {p : Nat} {a u : Text} {ts us : List Token} (h : Lexes p (a ++ u) (ts ++ us))
    (left : ∀ x ∈ ts, x.stop ≤ p + a.length) (right : ∀ x ∈ us, p + a.length ≤ x.start) :
    Lexes p a ts ∧ Lexes (p + a.length) u us := by
  generalize whole : a ++ u = t at h
  generalize all : ts ++ us = vs at h
  induction h generalizing a ts with
  | done p =>
    obtain ⟨rfl,rfl⟩ := List.append_eq_nil_iff.mp whole
    obtain ⟨rfl,rfl⟩ := List.append_eq_nil_iff.mp all
    exact ⟨.done p,.done _⟩
  | @gap p c t vs layout rest ih =>
    rcases a with _ | ⟨d,a⟩
    · have empty : ts = [] := by
        rw [List.eq_nil_iff_forall_not_mem]
        intro x hx
        have := lexesBounds rest x (by rw [← all]; exact List.mem_append_left _ hx)
        have := left x hx
        rw [List.length_nil] at this
        omega
      subst ts; subst all
      rw [List.nil_append] at whole
      subst whole
      exact ⟨.done p,.gap layout rest⟩
    · rw [List.cons_append,List.cons.injEq] at whole
      obtain ⟨rfl,rfl⟩ := whole
      rw [List.length_cons,Nat.add_comm a.length,← Nat.add_assoc] at left right ⊢
      obtain ⟨first,last⟩ := ih left right rfl all
      exact ⟨.gap layout first,last⟩
  | @token p c t tag n vs visible found rest ih =>
    rcases ts with _ | ⟨x,ts⟩
    · have empty : a = [] := by
        rw [List.nil_append] at all
        have : p + a.length ≤ p := right ⟨tag,c :: t.take n,p⟩ (by simp [all])
        exact List.length_eq_zero_iff.mp (by omega)
      subst a; subst all; subst whole
      exact ⟨.done p,.token visible found rest⟩
    · rw [List.cons_append,List.cons.injEq] at all
      obtain ⟨rfl,rfl⟩ := all
      have bound := lexemeBound found
      have reach := left _ List.mem_cons_self
      simp only [stop,List.length_cons,List.length_take,Nat.min_eq_left bound] at reach
      rcases a with _ | ⟨d,a⟩
      · rw [List.length_nil] at reach
        omega
      rw [List.cons_append,List.cons.injEq] at whole
      obtain ⟨rfl,rfl⟩ := whole
      rw [List.length_cons] at reach
      have fits : n ≤ a.length := by omega
      have position : p + (d :: a).length = p + 1 + n + (a.drop n).length := by
        rw [List.length_cons,List.length_drop]; omega
      rw [position] at left right ⊢
      rw [dropAppend u fits] at ih
      obtain ⟨first,last⟩ := ih (fun x hx => left x (List.mem_cons_of_mem _ hx)) right rfl rfl
      rw [List.take_append_of_le_length fits]
      exact ⟨.token visible (lexemeCut found fits) first,last⟩

theorem lexesSlice {text : Text} {front core back : List Token} {a b : Nat}
    (h : Lexes 0 text (front ++ (core ++ back))) (order : a ≤ b) (fits : b ≤ text.length)
    (before : ∀ x ∈ front, x.stop ≤ a) (inside : ∀ x ∈ core, a ≤ x.start ∧ x.stop ≤ b)
    (after : ∀ x ∈ back, b ≤ x.start) : Lexes a (text.slice a b) core := by
  have first : (text.take b).length = b := by rw [List.length_take]; omega
  have second : ((text.take b).take a).length = a := by rw [List.length_take,first]; omega
  rw [← List.take_append_drop b text,← List.append_assoc] at h
  have left := (lexesCut h (fun x hx => ?_) (fun x hx => ?_)).1
  · rw [← List.take_append_drop a (text.take b)] at left
    have right := (lexesCut left (fun x hx => ?_) (fun x hx => ?_)).2
    · rwa [Nat.zero_add,second,List.drop_take] at right
    · rw [second,Nat.zero_add]; exact before x hx
    · rw [second,Nat.zero_add]; exact (inside x hx).1
  · rw [first,Nat.zero_add]
    rcases List.mem_append.mp hx with hx | hx
    · exact Nat.le_trans (before x hx) order
    · exact (inside x hx).2
  · rw [first,Nat.zero_add]; exact after x hx

end ColumnDecl.Token
