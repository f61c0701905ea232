import ColumnDecl.Proofs.Declaration.Embedded
import ColumnDecl.Proofs.Keywords

/-! A type read under a given name, and the same type read as a declaration with that name in front.
A quoted name is always taken for a name, and a bare one unless a longer keyword could begin with it. -/
namespace ColumnDecl.Dialect
open Token Declaration

variable {d : Dialect} {name text : Text} {c : Column}

theorem parseQuoted (h : d.columnOf name text = .ok c) :
    d.parse (quotedName name ++ ' ' :: text) = .ok [c] := by
  have parts : quotedName name ++ ' ' :: text =
      [] ++ ((quotedName name ++ ' ' :: text) ++ []) := by simp
  obtain ⟨t,ts,lexed,carry⟩ := quotedRead (d := d) rfl parts h
  have read := carry d.maxDepth [] (Nat.le_refl _) trivial (.inl rfl)
  rw [List.append_nil] at read
  exact parseExact.mpr ⟨t :: ts,lexed,.last read⟩

theorem parseUnnamed (h : d.columnOf [] text = .ok c) : d.parse text = .ok [c] := by
  have parts : text = [] ++ (declared [] text ++ []) := by simp [declared]
  obtain ⟨t,ts,lexed,carry⟩ := declaredRead (d := d) rfl parts h
  have read := carry d.maxDepth true [] (Nat.le_refl _) trivial (.inl rfl) (.inl rfl)
  rw [List.append_nil] at read
  exact parseExact.mpr ⟨t :: ts,lexed,.last read⟩

theorem namesBefore {s : Scope} {t u : Token} {us : List Token} {hit : Scope.Hit}
    (builtin : s.keywords = Keywords.builtin) (word : t.tag = .identifier)
    (alone : ¬s.keywords.Continues t.value) (known : s.keyword? (u :: us) = some hit) :
    Names s t (u :: us) ⟨t.value,u,us⟩ := by
  obtain ⟨used,led,_⟩ := Keywords.hitWords known
  have word' : u.tag = .identifier := led.words u List.mem_cons_self
  have visible : u.isDelimiter = false := by simp [isDelimiter,word']
  have plain : modifier? u = none := Keywords.hitPlain builtin known
  cases found : s.keyword? (t :: u :: us) with
  | none => exact .unknown word found (by simp [followsKnownOnly,word',visible])
  | some hit' =>
    refine .known word found ?_ visible
    rw [Keywords.hitAlone found alone]
    simp [followsTypeOnly,word',visible,plain]

theorem parseNamed (builtin : d.keywords = Keywords.builtin) (h : d.columnOf name text = .ok c)
    (word : Token.stream name = .ok [⟨.identifier,name,0⟩]) (alone : ¬d.keywords.Continues name) :
    d.parse (name ++ ' ' :: text) = .ok [c] := by
  have parts : name ++ ' ' :: text = (name ++ [' ']) ++ (text ++ []) := by simp
  obtain ⟨named_,u,us,lexed,carry⟩ := bodyInserted (d := d) rfl parts h
  have read := carry d.maxDepth name [] (Nat.le_refl _) trivial (.inl rfl)
  rw [List.append_nil,Column.renamedSame named_] at read
  obtain ⟨_,_,_,_,typed,_,_⟩ := bodyExact.mp read
  obtain ⟨hit,known⟩ := typeKnown typed
  have names := namesBefore (t := ⟨.identifier,name,0⟩) builtin rfl alone known
  have joined : Lexes 0 (name ++ ' ' :: text) (⟨.identifier,name,0⟩ :: u :: us) := by
    refine lexesJoined (streamExact.mp word) (.gap (by decide) ?_) rfl
    rwa [List.length_append,List.length_singleton,← Nat.zero_add name.length] at lexed
  exact parseExact.mpr ⟨_,joined,.last (declarationExact.mpr ⟨rfl,_,.named names,read⟩)⟩

theorem unnamedParse (h : d.parse text = .ok [c]) (unnamed : c.name = [])
    (bare : ∀ t ts, Token.stream text = .ok (t :: ts) → t.tag ≠ .quotedIdentifier) :
    d.columnOf [] text = .ok c := by
  obtain ⟨ts,lexed,series⟩ := parseExact.mp h
  cases series with
  | more _ _ later _ next => cases next; contradiction
  | @last t ts _ read =>
    obtain ⟨visible,n,begins,inside⟩ := declarationExact.mp read
    obtain ⟨named_,_⟩ := bodyCarried (nestedReaderCarries (Nat.le_refl d.maxDepth)) inside
    have nameless : n.name = [] := named_.symm.trans unnamed
    -- A bare name is never empty, so it would show in the column.
    have written : t.tag = .identifier → t.value ≠ [] := by
      intro word none
      have bound := (lexesBounds lexed t List.mem_cons_self).2.1
      have raw : t.raw = [] := by simpa [Token.value,word] using none
      simp [Token.stop,raw] at bound
    cases begins with
    | named names =>
      cases names with
      | quoted quote _ => exact absurd quote (bare _ _ (streamExact.mpr lexed))
      | type word known follows =>
        have read' := declarationExact.mpr ⟨visible,_,.plain _ _,inside⟩
        exact columnOfExact.mpr ⟨_,_,c,lexed,read',(Column.renamedSame unnamed).symm⟩
      | known word _ _ _ => exact absurd nameless (written word)
      | unknown word _ _ => exact absurd nameless (written word)

theorem entryPointsAgree (builtin : d.keywords = Keywords.builtin) (name text : Text) (c : Column) :
    (d.columnOf name text = .ok c →
      d.parse (quotedName name ++ ' ' :: text) = .ok [c] ∧
      (Token.stream name = .ok [⟨.identifier,name,0⟩] → ¬d.keywords.Continues name →
        d.parse (name ++ ' ' :: text) = .ok [c]) ∧
      (name = [] → d.parse text = .ok [c])) ∧
    (d.parse text = .ok [c] → c.name = [] →
      (∀ t ts, Token.stream text = .ok (t :: ts) → t.tag ≠ .quotedIdentifier) →
      d.columnOf [] text = .ok c) := by
  refine ⟨fun h => ⟨parseQuoted h,parseNamed builtin h,?_⟩,unnamedParse⟩
  intro empty
  rw [empty] at h
  exact parseUnnamed h

theorem entryPointsAgreeDate :
    let n := "date".toList
    let t := "Nullable(Int8) not null ttl f(1".toList
    let c : Column := ⟨n,"Nullable(Int8) not null".toList,.int8,true,false,false,1,[],none,none,none,
      none,none,none⟩
    standard.parse (quotedName n ++ ' ' :: t) = .ok [c] ∧ standard.parse (n ++ ' ' :: t) = .ok [c] ∧
      standard.parse t = .ok [{ c with name := [] }] ∧
      standard.columnOf [] t = .ok { c with name := [] } := by
  intro n t c
  obtain ⟨read,plain,alone⟩ : standard.columnOf n t = .ok c ∧
      standard.columnOf [] t = .ok { c with name := [] } ∧ ¬Keywords.builtin.Continues n := by
    rw [standard,Keywords.builtinTable]
    decide +kernel
  have builtin : standard.keywords = Keywords.builtin := by simp only [standard]
  obtain ⟨quoted,named,_⟩ := (entryPointsAgree builtin n t c).1 read
  rw [builtin] at named
  obtain ⟨forth,back⟩ := entryPointsAgree builtin [] t { c with name := [] }
  have unnamed := (forth plain).2.2 rfl
  refine ⟨quoted,named (by decide +kernel) alone,unnamed,back unnamed rfl ?_⟩
  intro u us lexed
  have first : (Token.stream t).toOption.bind (·.head?) = some ⟨.identifier,"Nullable".toList,0⟩ := by
    decide +kernel
  rw [lexed] at first
  cases first
  decide

end ColumnDecl.Dialect
