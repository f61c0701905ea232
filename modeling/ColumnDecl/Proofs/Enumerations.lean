import ColumnDecl.Proofs.Applied

/-! Enums written out. One is read just when its list holds constants, no name and no code twice, and
every code in the range of the keyword; its table then holds them in their order. -/
namespace ColumnDecl.Dialect
open Token Declaration

/-- The codes that the keyword of an enum allows. -/
def InRange (kind : Kind) (code : Int) : Prop :=
  if kind = .enum8 then -128 ≤ code ∧ code ≤ 127 else -32768 ≤ code ∧ code ≤ 32767

instance (kind : Kind) (code : Int) : Decidable (InRange kind code) := by
  unfold InRange
  infer_instance

/-- The kind of an enum with these codes; the unsized keyword takes one byte where that is enough. -/
def enumOf (kind : Kind) (codes : List Int) : Kind :=
  if kind ≠ .enum then kind
  else if ∀ code ∈ codes, -128 ≤ code ∧ code ≤ 127 then .enum8 else .enum16

theorem byteFits {code : Int} : EnumTable.fits 8 code = true ↔ -128 ≤ code ∧ code ≤ 127 := by
  rw [EnumTable.fitsExact]
  omega

theorem enumKindOf (kind : Kind) (pairs : List (Text × Int)) :
    enumKind kind pairs = enumOf kind (pairs.map Prod.snd) := by
  unfold enumKind enumOf
  by_cases unsized : kind = .enum
  · have all : (pairs.all fun p => EnumTable.fits 8 p.2) = true ↔
        ∀ code ∈ pairs.map Prod.snd, -128 ≤ code ∧ code ≤ 127 := by
      simp only [List.all_eq_true,byteFits,List.forall_mem_map]
    rw [if_pos unsized,if_neg (not_not.mpr unsized)]
    simp only [all]
  · rw [if_neg unsized,if_pos unsized]

theorem enumCases {kind : Kind} (enum : kind.isEnum = true) :
    kind = .enum ∨ kind = .enum8 ∨ kind = .enum16 := by
  simpa [Kind.isEnum,or_assoc] using enum

/- The width of the table is that of the keyword, or the least one that holds all the codes. -/
theorem enumWidth {kind : Kind} (enum : kind.isEnum = true) (codes : List Int) :
    ∃ bits : Nat, (enumOf kind codes).enumBits? = some bits ∧ 0 < bits ∧
      ((∀ code ∈ codes, -(2 : Int) ^ (bits - 1) ≤ code ∧ code < 2 ^ (bits - 1)) ↔
        ∀ code ∈ codes, InRange kind code) := by
  have narrow : ∀ code, InRange .enum8 code ↔ -(2 : Int) ^ (8 - 1) ≤ code ∧ code < 2 ^ (8 - 1) := by
    intro code
    rw [InRange,if_pos rfl]
    omega
  have wide : ∀ kind code, kind ≠ .enum8 →
      (InRange kind code ↔ -(2 : Int) ^ (16 - 1) ≤ code ∧ code < 2 ^ (16 - 1)) := by
    intro kind code other
    rw [InRange,if_neg other]
    omega
  rcases enumCases enum with rfl | rfl | rfl
  · by_cases small : ∀ code ∈ codes, -128 ≤ code ∧ code ≤ 127
    · have sized : enumOf .enum codes = .enum8 := by rw [enumOf,if_neg (by simp),if_pos small]
      refine ⟨8,by rw [sized]; rfl,by decide,?_⟩
      constructor
      · intro _ code member
        have := small code member
        exact (wide .enum code (by decide)).mpr (by omega)
      · intro _ code member
        have := small code member
        omega
    · have sized : enumOf .enum codes = .enum16 := by rw [enumOf,if_neg (by simp),if_neg small]
      refine ⟨16,by rw [sized]; rfl,by decide,?_⟩
      simp only [wide .enum _ (by decide)]
  · exact ⟨8,rfl,by decide,by simp only [narrow]⟩
  · exact ⟨16,rfl,by decide,by simp only [wide .enum16 _ (by decide)]⟩

theorem enumTableExact {kind : Kind} (enum : kind.isEnum = true) {pairs : List (Text × Int)}
    {table : EnumTable} :
    EnumTable.ofWidth ((enumKind kind pairs).enumBits?.getD 0) pairs = .ok table ↔
      table = ⟨pairs⟩ ∧ pairs ≠ [] ∧ (pairs.map Prod.fst).Nodup ∧ (pairs.map Prod.snd).Nodup ∧
        ∀ code ∈ pairs.map Prod.snd, InRange kind code := by
  obtain ⟨bits,known,width,range⟩ := enumWidth enum (pairs.map Prod.snd)
  rw [enumKindOf,known]
  constructor
  · intro made
    obtain ⟨rfl,sound⟩ := (EnumTable.ofWidthExact width).mp made
    exact ⟨rfl,sound.some,sound.names,sound.codes,range.mp sound.fit⟩
  · intro h
    obtain ⟨rfl,filled,names,codes,inside⟩ := h
    exact (EnumTable.ofWidthExact width).mpr ⟨rfl,filled,names,codes,range.mpr inside⟩

theorem enumOfSized {kind : Kind} (enum : kind.isEnum = true) (codes : List Int) :
    enumOf kind codes = .enum8 ∨ enumOf kind codes = .enum16 := by
  unfold enumOf
  rcases enumCases enum with rfl | rfl | rfl
  · rw [if_neg (not_not.mpr rfl)]
    split
    · exact .inl rfl
    · exact .inr rfl
  · exact .inl rfl
  · exact .inr rfl

theorem enumBuilt {name text : Text} {kind : Kind} (sized : kind = .enum8 ∨ kind = .enum16)
    (table : EnumTable) {c : Column} :
    Column.ofDraft { name := name, typeText := text, kind := kind, enumTable := some table } = .ok c ↔
      c = ⟨name,text,kind,false,false,true,if kind = .enum8 then 1 else 2,[],some table,none,none,none,
        none,none⟩ := by
  rcases sized with rfl | rfl
  all_goals
    constructor
    · intro made
      exact (Except.ok.inj made).symm
    · intro same
      rw [same]
      rfl

theorem enumsExact {d : Dialect} (builtin : d.keywords = Keywords.builtin) {kind : Kind}
    (enum : kind.isEnum = true) {body : Text} {ts : List Token} (tokens : stream body = .ok ts)
    (matched : Matched ts) {name : Text} {c : Column} :
    d.columnOf name (applied kind body) = .ok c ↔ ∃ groups pairs, Separated groups ts ∧
      List.Forall₂ Constant groups pairs ∧ (pairs.map Prod.fst).Nodup ∧
      (pairs.map Prod.snd).Nodup ∧ (∀ code ∈ pairs.map Prod.snd, InRange kind code) ∧
      c = {
        name := name
        typeText := applied kind body
        kind := enumOf kind (pairs.map Prod.snd)
        nullable := false
        lowCardinality := false
        fixedLength := true
        estimatedLength := if enumOf kind (pairs.map Prod.snd) = .enum8 then 1 else 2
        nested := []
        enumTable := some ⟨pairs⟩
        aggregate := none
        signature := none
        precision := none
        scale := none
        timeZone := none } := by
  rw [appliedExact builtin (.inl enum) (streamExact.mp tokens) matched]
  constructor
  · intro h
    obtain ⟨groups,e,separated,filled,made⟩ := h
    cases filled with
    | literals other => rw [enum] at other; contradiction
    | @constants pairs _ _ each built =>
      obtain ⟨rfl,_,names,codes,inside⟩ := (enumTableExact enum).mp built
      rw [enumKindOf] at made
      exact ⟨groups,pairs,separated,each,names,codes,inside,
        (enumBuilt (enumOfSized enum _) _).mp made⟩
  · intro h
    obtain ⟨groups,pairs,separated,each,names,codes,inside,same⟩ := h
    have filled : pairs ≠ [] := by
      rintro rfl
      cases each
      cases separated
    have built := (enumTableExact enum).mpr ⟨rfl,filled,names,codes,inside⟩
    refine ⟨groups,_,separated,.constants enum each built,?_⟩
    rw [enumKindOf]
    exact (enumBuilt (enumOfSized enum _) _).mpr same

theorem enumsExactWide :
    let d : Dialect := ⟨Keywords.builtin,0⟩
    let body := " 'a''(, b' = -0x80 , 'x' = +0200".toList
    ∃ ts, stream body = .ok ts ∧ Matched ts ∧ d.columnOf [] (applied .enum body) = .ok
      ⟨[],"Enum( 'a''(, b' = -0x80 , 'x' = +0200)".toList,.enum16,false,false,true,2,[],
        some ⟨[("a'(, b".toList,-128),("x".toList,200)]⟩,none,none,none,none,none⟩ := by
  intro d body
  let first : List Token :=
    [⟨.string,"'a''(, b'".toList,1⟩,⟨.equals,['='],11⟩,⟨.number,"-0x80".toList,13⟩]
  let second : List Token :=
    [⟨.string,"'x'".toList,21⟩,⟨.equals,['='],25⟩,⟨.number,"+0200".toList,27⟩]
  let comma : Token := ⟨.comma,[','],19⟩
  have tokens : stream body = .ok (first ++ comma :: second) := by decide +kernel
  have matched : Matched (first ++ comma :: second) := by decide +kernel
  have builtin : d.keywords = Keywords.builtin := by simp only [d]
  have low : Integer.Spells "-0x80".toList (-128) := Integer.readExact.mp (by decide +kernel)
  have high : Integer.Spells "+0200".toList 200 := Integer.readExact.mp (by decide +kernel)
  have constants : List.Forall₂ Constant [first,second] [("a'(, b".toList,-128),("x".toList,200)] :=
    .cons (.mk rfl rfl rfl low) (.cons (.mk rfl rfl rfl high) .nil)
  refine ⟨_,tokens,matched,(enumsExact builtin rfl tokens matched).mpr ⟨[first,second],_,
    .more rfl (.last second),constants,by decide,by decide,by decide,?_⟩⟩
  decide +kernel

end ColumnDecl.Dialect
