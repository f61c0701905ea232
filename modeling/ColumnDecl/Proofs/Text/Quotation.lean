import ColumnDecl.Text.Quoted
import Mathlib.Data.List.Forall2

/-! Where quoted text ends, by what it begins with, and the ways to quote a text, character by character.
What is quoted is found again whatever stands behind it, unless that is the quote once more. -/
namespace ColumnDecl.Text

theorem quotedLast (q c : Char) : quotedTail q [c] = if c = q then some 1 else none := rfl

theorem quotedCons (q c d : Char) (t : Text) :
    quotedTail q (c :: d :: t) =
      if c = q then
        if d = q then match quotedTail q t with
          | some n => some (n + 2)
          | none => some 1
        else some 1
      else if c = '\\' then if d = '\n' then none else (quotedTail q t).map (· + 2)
      else (quotedTail q (d :: t)).map (· + 1) := rfl

theorem quotedEnd (q : Char) {t : Text} (h : t.head? ≠ some q) :
    quotedTail q (q :: t) = some 1 := by
  cases t with
  | nil => rw [quotedLast,if_pos rfl]
  | cons d t =>
    have other : d ≠ q := by simpa using h
    rw [quotedCons,if_pos rfl,if_neg other]

theorem quotedPair (q : Char) (t : Text) :
    quotedTail q (q :: q :: t) = some ((quotedTail q t).elim 1 (· + 2)) := by
  rw [quotedCons,if_pos rfl,if_pos rfl]
  cases quotedTail q t <;> rfl

theorem quotedEscape {q d : Char} (t : Text) (other : '\\' ≠ q) (line : d ≠ '\n') :
    quotedTail q ('\\' :: d :: t) = (quotedTail q t).map (· + 2) := by
  rw [quotedCons,if_neg other,if_pos rfl,if_neg line]

theorem quotedPlain {q c : Char} (t : Text) (other : c ≠ q) (plain : c ≠ '\\') :
    quotedTail q (c :: t) = (quotedTail q t).map (· + 1) := by
  cases t with
  | nil =>
    rw [quotedLast,if_neg other]
    rfl
  | cons d t => rw [quotedCons,if_neg other,if_neg plain]

theorem quotedFurther {q : Char} {a : Text} {n : Nat} (u : Text)
    (h : quotedTail q a = some n) : ∃ m, quotedTail q (a ++ u) = some m := by
  fun_induction quotedTail q a generalizing n with
  | case1 => contradiction
  | case2 =>
    by_cases twice : u.head? = some q
    · obtain ⟨v,rfl⟩ := List.head?_eq_some_iff.mp twice
      exact ⟨_,quotedPair q v⟩
    · exact ⟨1,quotedEnd q twice⟩
  | case3 => contradiction
  | case4 rest m hm ih => exact ⟨_,quotedPair q (rest ++ u)⟩
  | case5 rest unclosed ih => exact ⟨_,quotedPair q (rest ++ u)⟩
  | case6 d rest other => exact ⟨1,quotedEnd q (by simpa using other)⟩
  | case7 => contradiction
  | case8 d rest line other ih =>
    obtain ⟨k,hk,_⟩ := Option.map_eq_some_iff.mp h
    obtain ⟨m,hm⟩ := ih hk
    exact ⟨m + 2,by simp [quotedEscape _ other line,hm]⟩
  | case9 c d rest other plain ih =>
    obtain ⟨k,hk,_⟩ := Option.map_eq_some_iff.mp h
    obtain ⟨m,hm⟩ := ih hk
    exact ⟨m + 1,by simpa [quotedPlain _ other plain] using hm⟩

theorem quotedCut {q : Char} {a u : Text} {n : Nat} (h : quotedTail q (a ++ u) = some n)
    (fits : n ≤ a.length) : quotedTail q a = some n := by
  have positive := (quotedTailBounds h).1
  fun_induction quotedTail q a generalizing n with
  | case1 => simp at fits; omega
  | case2 =>
    have one : n = 1 := by simp at fits; omega
    rw [one]
  | case3 c other =>
    by_cases escape : c = '\\'
    · subst c
      cases u with
      | nil => simp [quotedTail,other] at h
      | cons d u =>
        by_cases line : d = '\n'
        · simp [quotedTail,other,line] at h
        · rw [List.cons_append,List.nil_append,quotedEscape _ other line] at h
          obtain ⟨k,_,rfl⟩ := Option.map_eq_some_iff.mp h
          simp at fits
    · rw [List.cons_append,List.nil_append,quotedPlain _ other escape] at h
      obtain ⟨k,hk,rfl⟩ := Option.map_eq_some_iff.mp h
      have := (quotedTailBounds hk).1
      simp at fits; omega
  | case4 rest m hm ih =>
    obtain ⟨k,hk⟩ := quotedFurther u hm
    rw [List.cons_append,List.cons_append,quotedPair,hk] at h
    cases Option.some.inj h
    have same := ih hk (by simp at fits; omega) (quotedTailBounds hk).1
    rw [← Option.some.inj (hm.symm.trans same)]; rfl
  | case5 rest unclosed ih =>
    rw [List.cons_append,List.cons_append,quotedPair] at h
    cases hk : quotedTail q (rest ++ u) with
    | none => rw [hk] at h; exact h
    | some k =>
      rw [hk] at h
      cases Option.some.inj h
      -- A further quote would have to lie within `a`, where nothing closes.
      have same := ih hk (by simp at fits; omega) (quotedTailBounds hk).1
      rw [unclosed] at same; contradiction
  | case6 d rest other => rw [List.cons_append,quotedEnd q (by simpa using other)] at h; exact h
  | case7 rest other => simp [quotedTail,other] at h
  | case8 d rest line other ih =>
    rw [List.cons_append,List.cons_append,quotedEscape _ other line] at h
    obtain ⟨k,hk,rfl⟩ := Option.map_eq_some_iff.mp h
    rw [ih hk (by simp at fits; omega) (quotedTailBounds hk).1]; rfl
  | case9 c d rest other plain ih =>
    rw [List.cons_append,quotedPlain _ other plain] at h
    obtain ⟨k,hk,rfl⟩ := Option.map_eq_some_iff.mp h
    rw [ih hk (by simp at fits; omega) (quotedTailBounds hk).1]; rfl

/- A quoted token that was closed early leaves its quote behind, so the second premise holds of
every text whose rest is made of tokens too. -/
theorem quotedExtended {q : Char} {a u : Text} {n : Nat} (h : quotedTail q a = some n)
    (proper : ∀ r, a.drop n = q :: r → quotedTail q r ≠ none) (other : u.head? ≠ some q) :
    quotedTail q (a ++ u) = some n := by
  fun_induction quotedTail q a generalizing n with
  | case1 => contradiction
  | case2 => cases h; exact quotedEnd q other
  | case3 => contradiction
  | case4 rest m hm ih =>
    cases h
    rw [List.cons_append,List.cons_append,quotedPair,ih hm (by simpa using proper)]; rfl
  | case5 rest unclosed ih => cases h; exact absurd unclosed (proper rest rfl)
  | case6 d rest single => cases h; exact quotedEnd q (by simpa using single)
  | case7 => contradiction
  | case8 d rest line escape ih =>
    obtain ⟨k,hk,rfl⟩ := Option.map_eq_some_iff.mp h
    rw [List.cons_append,List.cons_append,quotedEscape _ escape line,ih hk (by simpa using proper)]
    rfl
  | case9 c d rest single plain ih =>
    obtain ⟨k,hk,rfl⟩ := Option.map_eq_some_iff.mp h
    rw [List.cons_append,quotedPlain _ single plain,ih hk (by simpa using proper)]; rfl

/-! Quoting. -/

/-- The letters to which a backslash gives a meaning, with the characters they stand for. -/
def letters : List (Char × Char) :=
  [('n','\n'),('t','\t'),('r','\r'),('0','\x00'),('b','\x08'),('f','\x0c')]

/-- The ways to write a character between quotes. A quote and a backslash never stand for themselves,
and a backslash escapes them like any other character. -/
inductive Encodes (q : Char) : Char → Text → Prop where
  | plain {c} (other : c ≠ q) (plain : c ≠ '\\') : Encodes q c [c]
  | doubled : Encodes q q [q,q]
  | escaped {c} (line : c ≠ '\n') (plain : ∀ l ∈ letters, c ≠ l.1) : Encodes q c ['\\',c]
  | letter {l c} (listed : (l,c) ∈ letters) : Encodes q c ['\\',l]

theorem unescapePlain {q c : Char} (t : Text) (other : c ≠ q) (plain : c ≠ '\\') :
    unescape q (c :: t) = c :: unescape q t := by
  cases t with
  | nil => rfl
  | cons d t => rw [unescape,if_neg plain,if_neg fun both => other both.1]

theorem escapedPlain {c : Char} (plain : ∀ l ∈ letters, c ≠ l.1) : escaped c = c := by
  simp only [letters,List.mem_cons,List.not_mem_nil,or_false,forall_eq_or_imp,forall_eq] at plain
  obtain ⟨n,t,r,zero,b,f⟩ := plain
  unfold escaped
  split
  case h_7 => rfl
  all_goals contradiction

theorem lettersChecked : ∀ l ∈ letters, escaped l.1 = l.2 ∧ l.1 ≠ '\n' := by decide

section
variable {q : Char} (other : '\\' ≠ q)
include other

theorem quotedEncodes {c : Char} {w t : Text} {n : Nat} (h : Encodes q c w)
    (ends : quotedTail q t = some n) : quotedTail q (w ++ t) = some (w.length + n) := by
  have escape : ∀ {d : Char}, d ≠ '\n' → quotedTail q ('\\' :: d :: t) = some (2 + n) := by
    intro d line
    rw [quotedEscape t other line,ends,Nat.add_comm 2]
    rfl
  cases h with
  | plain apart plain =>
    rw [List.singleton_append,quotedPlain t apart plain,ends,List.length_singleton,Nat.add_comm 1]
    rfl
  | doubled =>
    rw [List.cons_append,List.cons_append,List.nil_append,quotedPair,ends]
    exact congrArg some (Nat.add_comm n 2)
  | escaped line => exact escape line
  | letter listed => exact escape (lettersChecked _ listed).2

theorem unescapeEncodes {c : Char} {w : Text} (h : Encodes q c w) (t : Text) :
    unescape q (w ++ t) = c :: unescape q t := by
  have escape : ∀ {d : Char}, unescape q ('\\' :: d :: t) = escaped d :: unescape q t := by
    intro d
    rw [unescape,if_pos rfl]
  cases h with
  | plain apart plain => exact unescapePlain t apart plain
  | doubled =>
    rw [List.cons_append,List.cons_append,List.nil_append,unescape,if_neg other.symm,if_pos ⟨rfl,rfl⟩]
  | escaped line plain =>
    rw [List.cons_append,List.cons_append,List.nil_append,escape,escapedPlain plain]
  | letter listed =>
    rw [List.cons_append,List.cons_append,List.nil_append,escape,(lettersChecked _ listed).1]

variable {v : Text} {ws : List Text} (each : List.Forall₂ (Encodes q) v ws)
include each

theorem quotedEncoded {u : Text} (apart : u.head? ≠ some q) :
    quotedTail q (ws.flatten ++ q :: u) = some (ws.flatten.length + 1) := by
  induction each with
  | nil => exact quotedEnd q apart
  | cons first rest ih =>
    rw [List.flatten_cons,List.append_assoc,quotedEncodes other first ih,List.length_append,
      Nat.add_assoc]

theorem unescapeEncoded : unescape q ws.flatten = v := by
  induction each with
  | nil => rfl
  | cons first rest ih => rw [List.flatten_cons,unescapeEncodes other first,ih]

theorem unquoteEncoded : unquote? (q :: (ws.flatten ++ [q])) = some v := by
  rw [unquote?,List.dropLast_concat,unescapeEncoded other each]

end

/-- A quote or a backslash is written twice. -/
def doubled (q c : Char) : Text := if c = q ∨ c = '\\' then [c, c] else [c]

def quote (q : Char) (t : Text) : Text := q :: (t.flatMap (doubled q) ++ [q])

theorem doubledEncodes (q c : Char) : Encodes q c (doubled q c) := by
  unfold doubled
  split
  next special =>
    rcases special with rfl | rfl
    · exact .doubled
    · exact .escaped (by decide) (by decide)
  next plain => exact .plain (fun quote => plain (.inl quote)) fun escape => plain (.inr escape)

theorem doubledEncoded (q : Char) (t : Text) : List.Forall₂ (Encodes q) t (t.map (doubled q)) := by
  rw [List.forall₂_map_right_iff,List.forall₂_same]
  exact fun c _ => doubledEncodes q c

end ColumnDecl.Text
