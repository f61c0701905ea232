import ColumnDecl.Keywords
import ColumnDecl.Proofs.Text.Apart

/-! The built-in keywords letter by letter. A string is decoded before its letters can be compared, so
what is checked by evaluation looks keywords up in this table and not in the one that strings are
entered in. -/
namespace ColumnDecl.Keywords

/-- The spellings of a kind in the order in which they are entered. -/
def letters : Kind → List Text
  | .bool => [['B','o','o','l'],['B','O','O','L','E','A','N']]
  | .int8 => [['I','n','t','8'],['B','Y','T','E'],['I','N','T','1'],
      ['I','N','T','1',' ','S','I','G','N','E','D'],['T','I','N','Y','I','N','T'],
      ['T','I','N','Y','I','N','T',' ','S','I','G','N','E','D']]
  | .uint8 => [['U','I','n','t','8'],['I','N','T','1',' ','U','N','S','I','G','N','E','D'],
      ['T','I','N','Y','I','N','T',' ','U','N','S','I','G','N','E','D']]
  | .int16 => [['I','n','t','1','6'],['S','M','A','L','L','I','N','T'],
      ['S','M','A','L','L','I','N','T',' ','S','I','G','N','E','D']]
  | .uint16 => [['U','I','n','t','1','6'],
      ['S','M','A','L','L','I','N','T',' ','U','N','S','I','G','N','E','D'],['Y','E','A','R']]
  | .int32 => [['I','n','t','3','2'],['I','N','T'],['I','N','T','E','G','E','R'],
      ['M','E','D','I','U','M','I','N','T'],['I','N','T',' ','S','I','G','N','E','D'],
      ['I','N','T','E','G','E','R',' ','S','I','G','N','E','D'],
      ['M','E','D','I','U','M','I','N','T',' ','S','I','G','N','E','D']]
  | .uint32 => [['U','I','n','t','3','2'],['I','N','T',' ','U','N','S','I','G','N','E','D'],
      ['I','N','T','E','G','E','R',' ','U','N','S','I','G','N','E','D'],
      ['M','E','D','I','U','M','I','N','T',' ','U','N','S','I','G','N','E','D']]
  | .int64 => [['I','n','t','6','4'],['B','I','G','I','N','T'],['S','I','G','N','E','D'],
      ['B','I','G','I','N','T',' ','S','I','G','N','E','D']]
  | .uint64 => [['U','I','n','t','6','4'],['B','I','G','I','N','T',' ','U','N','S','I','G','N','E','D'],
      ['U','N','S','I','G','N','E','D']]
  | .int128 => [['I','n','t','1','2','8']]
  | .uint128 => [['U','I','n','t','1','2','8']]
  | .int256 => [['I','n','t','2','5','6']]
  | .uint256 => [['U','I','n','t','2','5','6']]
  | .float32 => [['F','l','o','a','t','3','2'],['F','L','O','A','T'],['R','E','A','L'],
      ['S','I','N','G','L','E']]
  | .float64 => [['F','l','o','a','t','6','4'],['D','O','U','B','L','E'],
      ['D','O','U','B','L','E',' ','P','R','E','C','I','S','I','O','N']]
  | .decimal => [['D','e','c','i','m','a','l'],['D','E','C'],['N','U','M','E','R','I','C'],
      ['F','I','X','E','D']]
  | .decimal32 => [['D','e','c','i','m','a','l','3','2']]
  | .decimal64 => [['D','e','c','i','m','a','l','6','4']]
  | .decimal128 => [['D','e','c','i','m','a','l','1','2','8']]
  | .decimal256 => [['D','e','c','i','m','a','l','2','5','6']]
  | .date => [['D','a','t','e']]
  | .date32 => [['D','a','t','e','3','2']]
  | .dateTime => [['D','a','t','e','T','i','m','e'],['T','I','M','E','S','T','A','M','P']]
  | .dateTime32 => [['D','a','t','e','T','i','m','e','3','2']]
  | .dateTime64 => [['D','a','t','e','T','i','m','e','6','4']]
  | .intervalSecond => [['I','n','t','e','r','v','a','l','S','e','c','o','n','d']]
  | .intervalMinute => [['I','n','t','e','r','v','a','l','M','i','n','u','t','e']]
  | .intervalHour => [['I','n','t','e','r','v','a','l','H','o','u','r']]
  | .intervalDay => [['I','n','t','e','r','v','a','l','D','a','y']]
  | .intervalWeek => [['I','n','t','e','r','v','a','l','W','e','e','k']]
  | .intervalMonth => [['I','n','t','e','r','v','a','l','M','o','n','t','h']]
  | .intervalQuarter => [['I','n','t','e','r','v','a','l','Q','u','a','r','t','e','r']]
  | .intervalYear => [['I','n','t','e','r','v','a','l','Y','e','a','r']]
  | .uuid => [['U','U','I','D']]
  | .ipv4 => [['I','P','v','4'],['I','N','E','T','4']]
  | .ipv6 => [['I','P','v','6'],['I','N','E','T','6']]
  | .string => [['S','t','r','i','n','g'],
      ['B','I','N','A','R','Y',' ','L','A','R','G','E',' ','O','B','J','E','C','T'],
      ['B','I','N','A','R','Y',' ','V','A','R','Y','I','N','G'],['B','L','O','B'],['B','Y','T','E','A'],
      ['C','H','A','R'],['C','H','A','R',' ','L','A','R','G','E',' ','O','B','J','E','C','T'],
      ['C','H','A','R',' ','V','A','R','Y','I','N','G'],['C','H','A','R','A','C','T','E','R'],
      ['C','H','A','R','A','C','T','E','R',' ','L','A','R','G','E',' ','O','B','J','E','C','T'],
      ['C','H','A','R','A','C','T','E','R',' ','V','A','R','Y','I','N','G'],['C','L','O','B'],
      ['L','O','N','G','B','L','O','B'],['L','O','N','G','T','E','X','T'],
      ['M','E','D','I','U','M','B','L','O','B'],['M','E','D','I','U','M','T','E','X','T'],
      ['N','A','T','I','O','N','A','L',' ','C','H','A','R'],
      ['N','A','T','I','O','N','A','L',' ','C','H','A','R',' ','V','A','R','Y','I','N','G'],
      ['N','A','T','I','O','N','A','L',' ','C','H','A','R','A','C','T','E','R'],
      ['N','A','T','I','O','N','A','L',' ','C','H','A','R','A','C','T','E','R',' ',
        'L','A','R','G','E',' ','O','B','J','E','C','T'],
      ['N','A','T','I','O','N','A','L',' ','C','H','A','R','A','C','T','E','R',' ',
        'V','A','R','Y','I','N','G'],
      ['N','C','H','A','R'],['N','C','H','A','R',' ','L','A','R','G','E',' ','O','B','J','E','C','T'],
      ['N','C','H','A','R',' ','V','A','R','Y','I','N','G'],['N','V','A','R','C','H','A','R'],
      ['T','E','X','T'],['T','I','N','Y','B','L','O','B'],['T','I','N','Y','T','E','X','T'],
      ['V','A','R','C','H','A','R'],['V','A','R','C','H','A','R','2']]
  | .fixedString => [['F','i','x','e','d','S','t','r','i','n','g'],['B','I','N','A','R','Y']]
  | .json => [['J','S','O','N']]
  | .point => [['P','o','i','n','t']]
  | .ring => [['R','i','n','g']]
  | .polygon => [['P','o','l','y','g','o','n']]
  | .multiPolygon => [['M','u','l','t','i','P','o','l','y','g','o','n']]
  | .nothing => [['N','o','t','h','i','n','g']]
  | .enum => [['E','n','u','m']]
  | .enum8 => [['E','n','u','m','8']]
  | .enum16 => [['E','n','u','m','1','6']]
  | .array => [['A','r','r','a','y']]
  | .tuple => [['T','u','p','l','e']]
  | .map => [['M','a','p']]
  | .nested => [['N','e','s','t','e','d']]
  | .nullable => [['N','u','l','l','a','b','l','e']]
  | .lowCardinality => [['L','o','w','C','a','r','d','i','n','a','l','i','t','y']]
  | .aggregateFunction => [['A','g','g','r','e','g','a','t','e','F','u','n','c','t','i','o','n']]
  | .simpleAggregateFunction => [['S','i','m','p','l','e','A','g','g','r','e','g','a','t','e',
      'F','u','n','c','t','i','o','n']]

/-- The spellings of all kinds, each with its kind. -/
def listed : List (Text × Kind) := Kind.all.flatMap fun kind => (letters kind).map fun t => (t,kind)

/-- Each spelling under its key. -/
def table : Keywords := ⟨listed.map fun e => (keyOf e.1,e.2),4⟩

theorem listedApart : (listed.map fun e => keyOf e.1).Nodup := Text.codesApart (by decide +kernel)

/- A string is by definition made of its letters, so nothing is decoded here. -/
theorem spellingsLetters (kind : Kind) : spellings kind = (letters kind).map String.ofList := by
  cases kind <;> rfl

/-! Entering. -/

section
variable {k : Keywords} {keyword : Text} {kind : Kind}

theorem registerKnown {earlier : Kind} (known : k.get? keyword = some earlier) (kind : Kind) :
    k.register keyword kind = if earlier = kind then .ok k else .error ⟨keyword,earlier⟩ := by
  rw [get?] at known
  simp only [register,known]

theorem registerNew (new : k.get? keyword = none) (kind : Kind) : k.register keyword kind =
    .ok ⟨k.entries ++ [(keyOf keyword,kind)],max k.maxWords (wordCount (keyOf keyword))⟩ := by
  rw [get?] at new
  simp only [register,new]

/-- What one call does: it leaves the table, or appends a keyword that is not in it. -/
theorem enterCases (k : Keywords) (keyword : Text) (kind : Kind) :
    k.enter keyword kind = k ∨ k.get? keyword = none ∧ k.enter keyword kind =
      ⟨k.entries ++ [(keyOf keyword,kind)],max k.maxWords (wordCount (keyOf keyword))⟩ := by
  cases found : k.get? keyword with
  | none => exact .inr ⟨rfl,by rw [enter,registerNew found]⟩
  | some earlier =>
    rw [enter,registerKnown found]
    split
    next given =>
      split at given
      next => cases given; exact .inl rfl
      next => exact nomatch given
    next => exact .inl rfl

theorem enterNew (new : keyOf keyword ∉ k.entries.map Prod.fst) (kind : Kind) :
    k.enter keyword kind =
      ⟨k.entries ++ [(keyOf keyword,kind)],max k.maxWords (wordCount (keyOf keyword))⟩ := by
  have absent : k.get? keyword = none := Text.lookupAbsent.mpr new
  rw [enter,registerNew absent]

end

/- Where no key comes twice, each call appends. -/
theorem enterEach {calls : List (Text × Kind)} {k : Keywords}
    (distinct : (k.entries.map Prod.fst ++ calls.map fun call => keyOf call.1).Nodup) :
    calls.foldl (fun k call => k.enter call.1 call.2) k =
      ⟨k.entries ++ calls.map fun call => (keyOf call.1,call.2),
        calls.foldl (fun words call => max words (wordCount (keyOf call.1))) k.maxWords⟩ := by
  induction calls generalizing k with
  | nil => simp
  | cons call calls ih =>
    have new : keyOf call.1 ∉ k.entries.map Prod.fst := fun member =>
      (List.nodup_append.mp distinct).2.2 _ member _ List.mem_cons_self rfl
    rw [List.foldl_cons,enterNew new,ih (by simpa using distinct)]
    simp

theorem builtinTable : builtin = table := by
  have entered : builtin = listed.foldl (fun k call => k.enter call.1 call.2) empty := by
    simp only [builtin,listed,spellingsLetters,List.foldl_flatMap,List.foldl_map,String.toList_ofList]
  have words : listed.foldl (fun words call => max words (wordCount (keyOf call.1))) 1 = 4 := by
    decide +kernel
  have distinct : (empty.entries.map Prod.fst ++ listed.map fun e => keyOf e.1).Nodup := listedApart
  rw [entered,enterEach distinct]
  exact congrArg (Keywords.mk _) words

end ColumnDecl.Keywords
