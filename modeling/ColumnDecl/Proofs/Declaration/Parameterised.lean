import ColumnDecl.Proofs.Declaration.Local
import ColumnDecl.Proofs.Declaration.Separated
import ColumnDecl.Proofs.EnumTable
import ColumnDecl.Proofs.Integer

/-! Literal parameters as groups of tokens: which groups a kind takes, and what they stand for. All of
their tokens are flat, so nothing but its commas divides such a list. -/
namespace ColumnDecl.Declaration
open Token

/-- A number token between two bounds. -/
structure Ranged (low high : Int) (t : Token) (v : Int) : Prop where
  number : t.tag = .number
  spelled : Integer.Spells t.raw v
  low : low ≤ v
  high : v ≤ high

/-- A quoted name, an equals sign and the code of the name. -/
inductive Constant : List Token → Text × Int → Prop where
  | mk {name equals n code} (quoted : name.tag = .string) (sign : equals.tag = .equals)
      (number : n.tag = .number) (spelled : Integer.Spells n.raw code) :
      Constant [name,equals,n] (name.value,code)

def sizedDecimals : List (Kind × Int) :=
  [(.decimal32,9),(.decimal64,18),(.decimal128,38),(.decimal256,76)]

inductive Literals : Kind → List (List Token) → Parameters → Prop where
  | length {t n} (length : Ranged 1 2147483647 t n) : Literals .fixedString [[t]] ⟨some n,none,none⟩
  | precision {t p} (precision : Ranged 1 76 t p) : Literals .decimal [[t]] ⟨some p,some 0,none⟩
  | scaled {t u p q} (precision : Ranged 1 76 t p) (scale : Ranged 0 p u q) :
      Literals .decimal [[t],[u]] ⟨some p,some q,none⟩
  | sized {kind p t q} (sized : (kind,p) ∈ sizedDecimals) (scale : Ranged 0 p t q) :
      Literals kind [[t]] ⟨some p,some q,none⟩
  | fraction {t q} (fraction : Ranged 0 9 t q) : Literals .dateTime64 [[t]] ⟨none,some q,none⟩
  | zonedFraction {t z q} (fraction : Ranged 0 9 t q) (zone : z.tag = .string) :
      Literals .dateTime64 [[t],[z]] ⟨none,some q,some z.value⟩
  | zone {kind z} (plain : kind = .dateTime ∨ kind = .dateTime32) (zone : z.tag = .string) :
      Literals kind [[z]] ⟨none,none,some z.value⟩

def literalKinds : List Kind :=
  [.fixedString,.decimal,.decimal32,.decimal64,.decimal128,.decimal256,.dateTime64,.dateTime,
    .dateTime32]

section
variable {s : Scope} {a : Argument} {items : List Argument}

theorem boundedRanged {what : String} {low high v : Int} :
    bounded s what low high a = .ok v ↔ ∃ t, a.tokens = [t] ∧ Ranged low high t v := by
  rw [boundedExact]
  constructor
  · intro h
    obtain ⟨t,one,number,read,least,most⟩ := h
    exact ⟨t,one,number,Integer.readExact.mp read,least,most⟩
  · intro h
    obtain ⟨t,one,number,spelled,least,most⟩ := h
    exact ⟨t,one,number,Integer.readExact.mpr spelled,least,most⟩

theorem constantGroup {p : Text × Int} : constant s a = .ok p ↔ Constant a.tokens p := by
  obtain ⟨label,code⟩ := p
  rw [constantExact]
  constructor
  · intro h
    obtain ⟨t,e,n,whole,quoted,same,sign,number,read⟩ := h
    have group := Constant.mk quoted sign number (Integer.readExact.mp read)
    rwa [same,← whole] at group
  · intro h
    generalize tokens : a.tokens = ts at h
    cases h with
    | mk quoted sign number spelled =>
      exact ⟨_,_,_,rfl,quoted,rfl,sign,number,Integer.readExact.mpr spelled⟩

theorem constantsGroups {pairs : List (Text × Int)} :
    items.mapM (constant s) = .ok pairs ↔ List.Forall₂ Constant (items.map Argument.tokens) pairs := by
  rw [mapOkExact,List.forall₂_map_left_iff]
  simp only [constantGroup]

theorem sizedListed {kind : Kind} {p : Int} :
    (kind,p) ∈ sizedDecimals ↔ ∃ n : Nat, kind.sizedPrecision? = some n ∧ p = n := by
  constructor
  · intro h
    simp only [sizedDecimals,List.mem_cons,Prod.mk.injEq,List.not_mem_nil,or_false] at h
    rcases h with ⟨rfl,rfl⟩ | ⟨rfl,rfl⟩ | ⟨rfl,rfl⟩ | ⟨rfl,rfl⟩ <;> exact ⟨_,rfl,rfl⟩
  · intro h
    obtain ⟨n,sized,rfl⟩ := h
    unfold Kind.sizedPrecision? at sized
    split at sized
    all_goals first | (cases sized; simp [sizedDecimals]) | contradiction

theorem sizedKind {kind : Kind} {p : Int} (h : (kind,p) ∈ sizedDecimals) :
    kind ≠ .decimal ∧ kind ≠ .dateTime64 ∧ kind ≠ .fixedString := by
  simp only [sizedDecimals,List.mem_cons,Prod.mk.injEq,List.not_mem_nil,or_false] at h
  rcases h with ⟨rfl,_⟩ | ⟨rfl,_⟩ | ⟨rfl,_⟩ | ⟨rfl,_⟩ <;> decide

theorem zonedKind : ∀ kind ∈ literalKinds, kind ≠ .decimal → kind ≠ .dateTime64 →
    kind ≠ .fixedString → kind.sizedPrecision? = none → kind = .dateTime ∨ kind = .dateTime32 := by
  decide

theorem soleItem {group : List Token} (h : items.map Argument.tokens = [group]) :
    ∃ a, items = [a] ∧ a.tokens = group := List.map_eq_singleton_iff.mp h

theorem itemPair {first second : List Token} (h : items.map Argument.tokens = [first,second]) :
    ∃ a b, items = [a,b] ∧ a.tokens = first ∧ b.tokens = second := by
  obtain ⟨a,rest,rfl,one,others⟩ := List.map_eq_cons_iff.mp h
  obtain ⟨b,rfl,two⟩ := soleItem others
  exact ⟨a,b,rfl,one,two⟩

theorem decimalLiterals {p : Parameters} :
    decimal s items = .ok p ↔ Literals .decimal (items.map Argument.tokens) p := by
  constructor
  · intro h
    unfold decimal at h
    split at h
    next a =>
      obtain ⟨_,first,h⟩ := bindOk.mp h
      obtain ⟨t,one,precision⟩ := boundedRanged.mp first
      cases h
      rw [List.map_singleton,one]
      exact .precision precision
    next a b =>
      obtain ⟨_,first,h⟩ := bindOk.mp h
      obtain ⟨_,second,h⟩ := bindOk.mp h
      obtain ⟨t,one,precision⟩ := boundedRanged.mp first
      obtain ⟨u,two,scale⟩ := boundedRanged.mp second
      cases h
      rw [List.map_cons,List.map_singleton,one,two]
      exact .scaled precision scale
    next => contradiction
  · intro h
    generalize whole : items.map Argument.tokens = groups at h
    generalize decimal : Kind.decimal = kind at h
    cases h with
    | precision precision =>
      obtain ⟨a,rfl,one⟩ := soleItem whole
      exact bindOk.mpr ⟨_,boundedRanged.mpr ⟨_,one,precision⟩,rfl⟩
    | scaled precision scale =>
      obtain ⟨a,b,rfl,one,two⟩ := itemPair whole
      exact bindOk.mpr ⟨_,boundedRanged.mpr ⟨_,one,precision⟩,
        bindOk.mpr ⟨_,boundedRanged.mpr ⟨_,two,scale⟩,rfl⟩⟩
    | sized sized => exact absurd decimal.symm (sizedKind sized).1
    | zone plain => rcases plain with plain | plain <;> exact nomatch decimal.trans plain
    | length | fraction | zonedFraction => contradiction

theorem timeLiterals {p : Parameters} :
    fractionalTime s items = .ok p ↔ Literals .dateTime64 (items.map Argument.tokens) p := by
  constructor
  · intro h
    unfold fractionalTime at h
    split at h
    next a =>
      obtain ⟨_,first,h⟩ := bindOk.mp h
      obtain ⟨t,one,fraction⟩ := boundedRanged.mp first
      cases h
      rw [List.map_singleton,one]
      exact .fraction fraction
    next a b =>
      obtain ⟨_,first,h⟩ := bindOk.mp h
      obtain ⟨_,second,h⟩ := bindOk.mp h
      obtain ⟨t,one,fraction⟩ := boundedRanged.mp first
      obtain ⟨z,two,zone,rfl⟩ := timeZoneExact.mp second
      cases h
      rw [List.map_cons,List.map_singleton,one,two]
      exact .zonedFraction fraction zone
    next => contradiction
  · intro h
    generalize whole : items.map Argument.tokens = groups at h
    generalize time : Kind.dateTime64 = kind at h
    cases h with
    | fraction fraction =>
      obtain ⟨a,rfl,one⟩ := soleItem whole
      exact bindOk.mpr ⟨_,boundedRanged.mpr ⟨_,one,fraction⟩,rfl⟩
    | zonedFraction fraction zone =>
      obtain ⟨a,b,rfl,one,two⟩ := itemPair whole
      exact bindOk.mpr ⟨_,boundedRanged.mpr ⟨_,one,fraction⟩,
        bindOk.mpr ⟨_,timeZoneExact.mpr ⟨_,two,zone,rfl⟩,rfl⟩⟩
    | sized sized => exact absurd time.symm (sizedKind sized).2.1
    | zone plain => rcases plain with plain | plain <;> exact nomatch time.trans plain
    | length | precision | scaled => contradiction

theorem parametersExact {kind : Kind} (literal : kind ∈ literalKinds) {p : Parameters} :
    parameters s kind items = .ok p ↔ Literals kind (items.map Argument.tokens) p := by
  unfold parameters
  split
  next => exact decimalLiterals
  next => exact timeLiterals
  next other time =>
    constructor
    · intro h
      split at h
      next a =>
        rw [List.map_singleton]
        split at h
        next text =>
          obtain ⟨_,read,h⟩ := bindOk.mp h
          obtain ⟨t,one,length⟩ := boundedRanged.mp read
          cases h
          rw [text,one]
          exact .length length
        next text =>
          split at h
          next precision sized =>
            obtain ⟨_,read,h⟩ := bindOk.mp h
            obtain ⟨t,one,scale⟩ := boundedRanged.mp read
            cases h
            rw [one]
            exact .sized (sizedListed.mpr ⟨precision,sized,rfl⟩) scale
          next unsized =>
            obtain ⟨_,read,h⟩ := bindOk.mp h
            obtain ⟨z,one,zone,rfl⟩ := timeZoneExact.mp read
            cases h
            rw [one]
            exact .zone (zonedKind kind literal other time text unsized) zone
      next => contradiction
    · intro h
      generalize whole : items.map Argument.tokens = groups at h
      cases h with
      | length length =>
        obtain ⟨a,rfl,one⟩ := soleItem whole
        exact bindOk.mpr ⟨_,boundedRanged.mpr ⟨_,one,length⟩,rfl⟩
      | sized listed scale =>
        obtain ⟨a,rfl,one⟩ := soleItem whole
        obtain ⟨precision,sized,rfl⟩ := sizedListed.mp listed
        dsimp only
        rw [if_neg (sizedKind listed).2.2,sized]
        exact bindOk.mpr ⟨_,boundedRanged.mpr ⟨_,one,scale⟩,rfl⟩
      | @zone _ z plain zone =>
        obtain ⟨a,rfl,one⟩ := soleItem whole
        have read : timeZone s a = .ok z.value := timeZoneExact.mpr ⟨z,one,zone,rfl⟩
        rcases plain with rfl | rfl
        · exact bindOk.mpr ⟨_,read,rfl⟩
        · exact bindOk.mpr ⟨_,read,rfl⟩
      | precision | scaled => exact absurd rfl other
      | fraction | zonedFraction => exact absurd rfl time

end

/-! What a list of parameters leaves to build. -/

/-- A draft of this kind completed by the groups of its list. -/
inductive Filled (d : Column.Draft) (groups : List (List Token)) : Column.Draft → Prop where
  | constants {pairs table} (enum : d.kind.isEnum = true) (each : List.Forall₂ Constant groups pairs)
      (made : EnumTable.ofWidth ((enumKind d.kind pairs).enumBits?.getD 0) pairs = .ok table) :
      Filled d groups { d with kind := enumKind d.kind pairs, enumTable := some table }
  | literals {p} (other : d.kind.isEnum = false) (read : Literals d.kind groups p) :
      Filled d groups { d with precision := p.precision, scale := p.scale, timeZone := p.timeZone }

theorem constantFlat {group : List Token} {p : Text × Int} (h : Constant group p) :
    ∀ t ∈ group, Flat t := by
  cases h with
  | mk quoted sign number =>
    simp only [List.mem_cons,List.not_mem_nil,or_false]
    rintro t (rfl | rfl | rfl)
    · exact flatTag (.inl quoted)
    · exact flatTag (.inr (.inl sign))
    · exact flatTag (.inr (.inr number))

theorem literalsFlat {kind : Kind} {groups : List (List Token)} {p : Parameters}
    (h : Literals kind groups p) : ∀ group ∈ groups, ∀ t ∈ group, Flat t := by
  have number : ∀ {low high v : Int} {t : Token}, Ranged low high t v → Flat t :=
    fun ranged => flatTag (.inr (.inr ranged.number))
  have sole : ∀ {t : Token}, Flat t → ∀ group ∈ [[t]], ∀ x ∈ group, Flat x := by simp
  have pair : ∀ {t u : Token}, Flat t → Flat u → ∀ group ∈ [[t],[u]], ∀ x ∈ group, Flat x := by
    intro t u left right
    simp [left,right]
  cases h with
  | length length => exact sole (number length)
  | precision precision => exact sole (number precision)
  | scaled precision scale => exact pair (number precision) (number scale)
  | sized _ scale => exact sole (number scale)
  | fraction fraction => exact sole (number fraction)
  | zonedFraction fraction zone => exact pair (number fraction) (flatTag (.inl zone))
  | zone _ zone => exact sole (flatTag (.inl zone))

theorem filledFlat {d e : Column.Draft} {groups : List (List Token)} (h : Filled d groups e) :
    ∀ group ∈ groups, ∀ t ∈ group, Flat t := by
  cases h with
  | constants _ each =>
    intro group member
    obtain ⟨p,_,constant⟩ := mateOf each.flip member
    exact constantFlat constant
  | literals _ read => exact literalsFlat read

theorem filledText {d e : Column.Draft} {groups : List (List Token)} (h : Filled d groups e) :
    e.name = d.name ∧ e.typeText = d.typeText := by
  cases h <;> exact ⟨rfl,rfl⟩

theorem filledRenamed {d e : Column.Draft} {groups : List (List Token)} (h : Filled d groups e)
    (name : Text) : Filled { d with name := name } groups { e with name := name } := by
  cases h with
  | constants enum each made => exact .constants enum each made
  | literals other read => exact .literals other read

/-! The same groups elsewhere. -/

theorem constantGroupAlike {group group' : List Token} {p : Text × Int} (h : Constant group p)
    (same : List.Forall₂ Alike group group') : Constant group' p := by
  cases h with
  | mk quoted sign number spelled =>
    obtain ⟨name,_,first,others,rfl⟩ := List.forall₂_cons_left_iff.mp same
    obtain ⟨equals,_,second,last,rfl⟩ := List.forall₂_cons_left_iff.mp others
    obtain ⟨n,third,rfl⟩ := soleMate last
    rw [alikeValue first]
    exact .mk (first.1 ▸ quoted) (second.1 ▸ sign) (third.1 ▸ number) (third.2 ▸ spelled)

theorem rangedAlike {low high v : Int} {t u : Token} (h : Ranged low high t v) (same : Alike t u) :
    Ranged low high u v :=
  ⟨same.1 ▸ h.number,same.2 ▸ h.spelled,h.low,h.high⟩

theorem soleGroup {t : Token} {groups : List (List Token)} (h : AlikeGroups [[t]] groups) :
    ∃ u, groups = [[u]] ∧ Alike t u := by
  obtain ⟨_,same,rfl⟩ := soleMate h
  obtain ⟨u,alike,rfl⟩ := soleMate same
  exact ⟨u,rfl,alike⟩

theorem groupPair {t z : Token} {groups : List (List Token)} (h : AlikeGroups [[t],[z]] groups) :
    ∃ u y, groups = [[u],[y]] ∧ Alike t u ∧ Alike z y := by
  obtain ⟨_,_,same,others,rfl⟩ := List.forall₂_cons_left_iff.mp h
  obtain ⟨u,alike,rfl⟩ := soleMate same
  obtain ⟨y,rfl,alike'⟩ := soleGroup others
  exact ⟨u,y,rfl,alike,alike'⟩

theorem literalsAlike {kind : Kind} {groups groups' : List (List Token)} {p : Parameters}
    (h : Literals kind groups p) (same : AlikeGroups groups groups') : Literals kind groups' p := by
  cases h with
  | length length =>
    obtain ⟨u,rfl,alike⟩ := soleGroup same
    exact .length (rangedAlike length alike)
  | precision precision =>
    obtain ⟨u,rfl,alike⟩ := soleGroup same
    exact .precision (rangedAlike precision alike)
  | scaled precision scale =>
    obtain ⟨u,y,rfl,alike,alike'⟩ := groupPair same
    exact .scaled (rangedAlike precision alike) (rangedAlike scale alike')
  | sized sized scale =>
    obtain ⟨u,rfl,alike⟩ := soleGroup same
    exact .sized sized (rangedAlike scale alike)
  | fraction fraction =>
    obtain ⟨u,rfl,alike⟩ := soleGroup same
    exact .fraction (rangedAlike fraction alike)
  | zonedFraction fraction zone =>
    obtain ⟨u,y,rfl,alike,alike'⟩ := groupPair same
    rw [alikeValue alike']
    exact .zonedFraction (rangedAlike fraction alike) (alike'.1 ▸ zone)
  | zone plain zone =>
    obtain ⟨u,rfl,alike⟩ := soleGroup same
    rw [alikeValue alike]
    exact .zone plain (alike.1 ▸ zone)

theorem filledAlike {d e : Column.Draft} {groups groups' : List (List Token)} (h : Filled d groups e)
    (same : AlikeGroups groups groups') : Filled d groups' e := by
  cases h with
  | literals other read => exact .literals other (literalsAlike read same)
  | @constants pairs _ enum each made =>
    refine .constants enum ?_ made
    clear made
    induction each generalizing groups' with
    | nil => cases same; exact .nil
    | cons first _ ih =>
      obtain ⟨_,_,alike,others,rfl⟩ := List.forall₂_cons_left_iff.mp same
      exact .cons (constantGroupAlike first alike) (ih others)

/-! Parameter lists in parentheses. -/

/-- The kinds whose parameters are literals. -/
def Literal (kind : Kind) : Prop := kind.isEnum = true ∨ kind ∈ literalKinds

theorem enumerationGroups {s : Scope} {kind sized : Kind} {items : List Argument}
    {table : EnumTable} : enumeration s kind items = .ok (sized,table) ↔
      ∃ pairs, List.Forall₂ Constant (items.map Argument.tokens) pairs ∧ sized = enumKind kind pairs ∧
        EnumTable.ofWidth ((enumKind kind pairs).enumBits?.getD 0) pairs = .ok table := by
  constructor
  · intro h
    obtain ⟨pairs,read,h⟩ := bindOk.mp h
    dsimp only at h
    split at h
    next made =>
      cases h
      exact ⟨pairs,constantsGroups.mp read,rfl,made⟩
    next => contradiction
    next => contradiction
  · intro h
    obtain ⟨pairs,each,rfl,made⟩ := h
    refine bindOk.mpr ⟨pairs,constantsGroups.mpr each,?_⟩
    dsimp only
    rw [made]

theorem parameterisedExact {s : Scope} {h : Head} {o : Token} {ts : List Token} {r : Typed}
    (literal : Literal h.kind) : parameterised s h o ts = .ok r ↔ ∃ args d,
      Split o.stop ts args ∧ Filled (h.draft s args.close.stop) (args.items.map Argument.tokens) d ∧
        Column.ofDraft d = .ok r.column ∧ r.stop = args.close.stop ∧ r.rest = args.rest := by
  constructor
  · intro read
    obtain ⟨args,split,read⟩ := bindOk.mp read
    dsimp only at read
    refine ⟨args,?_⟩
    split at read
    next enum =>
      obtain ⟨⟨sized,table⟩,found,read⟩ := bindOk.mp read
      obtain ⟨column,made,read⟩ := bindOk.mp read
      cases read
      obtain ⟨pairs,each,rfl,table⟩ := enumerationGroups.mp found
      exact ⟨_,argumentsExact.mp split,.constants enum each table,buildExact.mp made,rfl,rfl⟩
    next other =>
      obtain ⟨p,found,read⟩ := bindOk.mp read
      obtain ⟨column,made,read⟩ := bindOk.mp read
      have plain := (parametersExact (literal.resolve_left other)).mp found
      cases read
      exact ⟨_,argumentsExact.mp split,.literals (Bool.eq_false_iff.mpr other) plain,
        buildExact.mp made,rfl,rfl⟩
  · intro found
    obtain ⟨args,d,split,filled,made,stop,rest⟩ := found
    obtain ⟨column,_,_⟩ := r
    cases stop
    cases rest
    refine bindOk.mpr ⟨args,argumentsExact.mpr split,?_⟩
    dsimp only
    cases filled with
    | constants enum each table =>
      rw [if_pos (show h.kind.isEnum = true from enum)]
      exact bindOk.mpr ⟨_,enumerationGroups.mpr ⟨_,each,rfl,table⟩,
        bindOk.mpr ⟨column,buildExact.mpr made,rfl⟩⟩
    | literals other plain =>
      have plainKind : ¬h.kind.isEnum = true := Bool.eq_false_iff.mp other
      rw [if_neg plainKind]
      exact bindOk.mpr ⟨_,(parametersExact (literal.resolve_left plainKind)).mpr plain,
        bindOk.mpr ⟨column,buildExact.mpr made,rfl⟩⟩

end ColumnDecl.Declaration
