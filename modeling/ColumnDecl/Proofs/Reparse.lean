import ColumnDecl.Proofs.Declaration.Embedded
import ColumnDecl.Proofs.Declaration.Within

/-! Every column in what a text was read as is read again, the same in all its parts, from its own
name and type text. -/
namespace ColumnDecl.Dialect
open Token Declaration

theorem bodyReparsed {d : Dialect} {text : Text} {stop level : Nat} {name : Text} {t : Token}
    {front ts rest : List Token} {c : Column} (lexed : Lexes 0 text (front ++ t :: ts))
    (deep : level ≤ d.maxDepth)
    (h : body (d.scope text stop) (nestedReader (d.scope text stop) level) name t.start t ts =
      .ok (c, rest)) : d.columnOf c.name c.typeText = .ok c := by
  obtain ⟨_,core,clause,spans,carry⟩ := bodyCarried (nestedReaderCarries deep) h
  obtain ⟨last,closes,text_⟩ := spans.text
  rcases core with _ | ⟨z,core⟩
  · exact nomatch closes
  have whole := spans.whole
  rw [List.cons_append,List.cons.injEq] at whole
  obtain ⟨rfl,behind⟩ := whole
  rw [behind,← List.cons_append] at lexed
  obtain ⟨order,fits,inside⟩ := lexesExcerpt lexed closes
  let m := excerptPassage (d.scope text stop) d t.start last rfl ⟨order,fits⟩
  obtain ⟨us,again,tokens⟩ := excerptTokens (s := d.scope text stop) (d := d) rfl ⟨order,fits⟩ inside
  obtain ⟨u,tail,mate,_,rfl⟩ := List.forall₂_cons_left_iff.mp tokens
  have read := carry m (u :: tail) [] u.start [] [] rfl tokens (Passage.sameStart mate) trivial trivial
    List.nil_prefix u tail (List.append_nil _)
  have word : u.tag = .identifier := bodyWord read
  have visible : u.isDelimiter = false := by simp [isDelimiter,word]
  have found : outermost m.target false u.start (u :: tail) = .ok ({ c with name := [] }, []) :=
    declarationExact.mpr ⟨visible,_,.plain u tail,read⟩
  have spelled : d.scope c.typeText c.typeText.length = m.target := by rw [text_]; rfl
  exact columnOfExact.mpr
    ⟨u,tail,{ c with name := [] },text_ ▸ again,spelled ▸ found,(Column.renamedSame rfl).symm⟩

theorem bodyWithin {d : Dialect} {text : Text} {stop level : Nat} {name : Text} {t : Token}
    {front ts rest : List Token} {c x : Column} (lexed : Lexes 0 text (front ++ t :: ts))
    (deep : level ≤ d.maxDepth)
    (h : body (d.scope text stop) (nestedReader (d.scope text stop) level) name t.start t ts =
      .ok (c, rest)) (inside : x.Within c) : d.columnOf x.name x.typeText = .ok x := by
  induction level generalizing name t front ts rest c with
  | zero =>
    cases inside with
    | self => exact bodyReparsed lexed deep h
    | nested member deeper =>
      obtain ⟨_,_,_,_,_,_,read,_⟩ := bodyOrigin (nestedReaderCarries (Nat.le_refl 0)) h _ member
      exact nomatch read
  | succ level ih =>
    cases inside with
    | self => exact bodyReparsed lexed deep h
    | nested member deeper =>
      obtain ⟨names,start,us,c',rest',suffix,read,same⟩ :=
        bodyOrigin (nestedReaderCarries (Nat.le_refl (level + 1))) h _ member
      -- The nested column was read a level below, from a part of these tokens.
      obtain ⟨below,u,tail,next,rfl,read⟩ := nestedReaderExact.mp read
      cases next
      obtain ⟨_,n,begins,read⟩ := declarationExact.mp read
      obtain ⟨before,whole⟩ := beginsWhole begins
      obtain ⟨between,split⟩ := suffix
      have shape : front ++ t :: ts = (front ++ between ++ before) ++ n.head :: n.rest := by
        rw [← split,whole]; simp
      have above : x.Within c' := by
        rcases same with rfl | member'
        · exact deeper
        · exact .nested member' deeper
      exact ih (shape ▸ lexed) (Nat.le_of_succ_le deep) read above

theorem columnOfRenamed {d : Dialect} {name text : Text} {c : Column}
    (h : d.columnOf name text = .ok c) (other : Text) :
    d.columnOf other text = .ok { c with name := other } := by
  obtain ⟨t,tail,column,lexed,read,rfl⟩ := columnOfExact.mp h
  exact columnOfExact.mpr ⟨t,tail,column,lexed,read,rfl⟩

theorem declarationWithin {d : Dialect} {text : Text} {stop : Nat} {names : Bool} {t : Token}
    {ts rest : List Token} {c x : Column} (front : List Token) (lexed : Lexes 0 text (front ++ t :: ts))
    (h : outermost (d.scope text stop) names t.start (t :: ts) = .ok (c, rest))
    (inside : x.Within c) : d.columnOf x.name x.typeText = .ok x := by
  obtain ⟨_,n,begins,read⟩ := declarationExact.mp h
  obtain ⟨before,whole⟩ := beginsWhole begins
  rw [whole,← List.append_assoc] at lexed
  exact bodyWithin lexed (Nat.le_refl _) read inside

theorem seriesWithin {d : Dialect} {text : Text} {stop : Nat} {ts : List Token}
    {cs : List Column} {c x : Column} (front : List Token) (lexed : Lexes 0 text (front ++ ts))
    (series : Series (d.scope text stop) ts cs) (member : c ∈ cs) (inside : x.Within c) :
    d.columnOf x.name x.typeText = .ok x := by
  induction series generalizing front with
  | none => contradiction
  | last read =>
    cases List.mem_singleton.mp member
    exact declarationWithin front lexed read inside
  | @more t ts c' d' rest cs read comma some shorter next ih =>
    rcases List.mem_cons.mp member with rfl | member
    · exact declarationWithin front lexed read inside
    · obtain ⟨used,whole,_⟩ := outermostCarries read
      refine ih (front ++ used ++ [d']) ?_ member
      rw [whole] at lexed
      simpa using lexed

theorem parsedWithin {d : Dialect} {text : Text} {cs : List Column} {c x : Column}
    (h : d.parse text = .ok cs) (member : c ∈ cs) (inside : x.Within c) :
    d.columnOf x.name x.typeText = .ok x := by
  obtain ⟨ts,lexed,series⟩ := parseExact.mp h
  exact seriesWithin [] lexed series member inside

theorem typedWithin {d : Dialect} {name text : Text} {c x : Column}
    (h : d.columnOf name text = .ok c) (inside : x.Within c) :
    d.columnOf x.name x.typeText = .ok x := by
  obtain ⟨t,tail,column,lexed,read,rfl⟩ := columnOfExact.mp h
  cases inside with
  | self => exact columnOfRenamed (declarationWithin [] lexed read (.self column)) name
  | nested member deeper => exact declarationWithin [] lexed read (.nested member deeper)

theorem reparsed (d : Dialect) (text : Text) :
    (∀ cs, d.parse text = .ok cs → ∀ c ∈ cs, ∀ x, x.Within c →
      d.columnOf x.name x.typeText = .ok x) ∧
    (∀ name c, d.columnOf name text = .ok c → ∀ x, x.Within c →
      d.columnOf x.name x.typeText = .ok x) :=
  ⟨fun _ h _ member _ inside => parsedWithin h member inside,
    fun _ _ h _ inside => typedWithin h inside⟩

theorem reparsedField :
    let d : Dialect := ⟨⟨[("TUPLE".toList,.tuple),("STRING".toList,.string)],1⟩,1⟩
    let x : Column := ⟨"s".toList,"String null".toList,.string,true,false,false,1,[],none,none,none,
      none,none,none⟩
    let c : Column := ⟨"r".toList,"tuple(s String null)".toList,.tuple,false,false,false,1,[x],none,
      none,none,none,none,none⟩
    d.parse "r tuple(s String null) ttl now()".toList = .ok [c] ∧
      d.columnOf x.name x.typeText = .ok x ∧ d.columnOf c.name c.typeText = .ok c := by
  intro d x c
  have read : d.parse "r tuple(s String null) ttl now()".toList = .ok [c] := by decide +kernel
  have again := (reparsed d _).1 [c] read c List.mem_cons_self
  exact ⟨read,again x (.nested List.mem_cons_self (.self x)),again c (.self c)⟩

end ColumnDecl.Dialect
