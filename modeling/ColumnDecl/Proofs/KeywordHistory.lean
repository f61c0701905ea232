import ColumnDecl.Proofs.Keywords
import Mathlib.Order.Bounds.Defs

/-! A keyword table over its history. A keyword keeps the kind it was first entered with, and a call
for another kind is refused and changes nothing. After any calls `maxWords` bounds the words of every
keyword, so that the search of the longest one overlooks none. -/
namespace ColumnDecl.Keywords

/-- The table after these calls, some of which may have been refused. -/
def after (k : Keywords) (calls : List (Text × Kind)) : Keywords :=
  calls.foldl (fun k call => k.enter call.1 call.2) k

section
variable {k : Keywords} {keyword key : Text} {kind : Kind}

theorem registerRefused {conflict : Conflict} :
    k.register keyword kind = .error conflict ↔
      ∃ other, other ≠ kind ∧ k.get? keyword = some other ∧ conflict = ⟨keyword,other⟩ := by
  cases found : k.get? keyword with
  | none =>
    rw [registerNew found]
    exact ⟨nofun,fun ⟨_,_,known,_⟩ => nomatch known⟩
  | some earlier =>
    rw [registerKnown found]
    split
    next same => exact ⟨nofun,fun ⟨_,different,known,_⟩ => by cases known; contradiction⟩
    next different =>
      constructor
      · intro h
        cases h
        exact ⟨earlier,different,rfl,rfl⟩
      · rintro ⟨other,-,known,rfl⟩
        cases known
        rfl

theorem registerGives {grown : Keywords} (h : k.register keyword kind = .ok grown) :
    grown = k.enter keyword kind ∧ grown.get? keyword = some kind := by
  refine ⟨by rw [enter,h],?_⟩
  cases found : k.get? keyword with
  | none =>
    have absent : k.entries.lookup (keyOf keyword) = none := found
    rw [registerNew found] at h
    cases h
    rw [get?,find?,List.lookup_append,absent,Option.none_or,List.lookup_cons_self]
  | some earlier =>
    rw [registerKnown found] at h
    split at h
    next same =>
      cases h
      rw [found,same]
    next => contradiction

theorem enterKeeps {found : Kind} (h : k.find? key = some found) (keyword : Text) (kind : Kind) :
    (k.enter keyword kind).find? key = some found := by
  rcases enterCases k keyword kind with same | ⟨-,grown⟩
  · rwa [same]
  · rw [find?] at h
    rw [grown,find?,List.lookup_append,h,Option.some_or]

theorem enterOthers (other : key ≠ keyOf keyword) :
    (k.enter keyword kind).find? key = k.find? key := by
  rcases enterCases k keyword kind with same | ⟨-,grown⟩
  · rw [same]
  · have apart : [(keyOf keyword,kind)].lookup key = none := by
      simpa [List.lookup_eq_none_iff] using other
    rw [grown,find?,find?,List.lookup_append,apart,Option.or_none]

theorem afterKeeps {found : Kind} (h : k.find? key = some found) (calls : List (Text × Kind)) :
    (k.after calls).find? key = some found := by
  induction calls generalizing k with
  | nil => exact h
  | cons call calls ih => exact ih (enterKeeps h call.1 call.2)

end

/-- The search looks at enough words for every keyword of the table. -/
def Wide (k : Keywords) : Prop := ∀ e ∈ k.entries, wordCount e.1 ≤ k.maxWords

theorem wideEnter {k : Keywords} (wide : k.Wide) (keyword : Text) (kind : Kind) :
    (k.enter keyword kind).Wide := by
  rcases enterCases k keyword kind with same | ⟨-,grown⟩
  · rwa [same]
  · rw [grown]
    intro e listed
    rcases List.mem_append.mp listed with earlier | added
    · exact Nat.le_trans (wide e earlier) (Nat.le_max_left _ _)
    · rw [List.mem_singleton.mp added]
      exact Nat.le_max_right _ _

theorem wideBuiltin : builtin.Wide :=
  List.foldlRecOn _ _ nofun fun _ wide kind _ =>
    List.foldlRecOn _ _ wide fun _ wide spelling _ => wideEnter wide spelling.toList kind

theorem wideAfter {k : Keywords} (wide : k.Wide) (calls : List (Text × Kind)) :
    (k.after calls).Wide :=
  List.foldlRecOn calls _ wide fun _ wide call _ => wideEnter wide call.1 call.2

/- Words that hold spaces, or nothing, are also joined by a space each. -/
theorem keyWords (w : Text) (ws : List Text) : (w :: ws).length ≤ wordCount (key (w :: ws)) := by
  induction ws generalizing w with
  | nil => exact Nat.le_add_left 1 _
  | cons v ws ih =>
    have rest := ih v
    rw [wordCount] at rest ⊢
    rw [keyCons,List.count_append,List.count_append,List.length_cons]
    simp only [List.count_singleton_self]
    omega

/-- The first `n` words form a keyword. -/
def Formed (k : Keywords) (words : List Text) (n : Nat) : Prop :=
  1 ≤ n ∧ n ≤ words.length ∧ ∃ kind, k.find? (key (words.take n)) = some kind

section
variable {k : Keywords} {words : List Text} {n : Nat} {kind : Kind}

theorem formedWithin (wide : k.Wide) (formed : k.Formed words n) :
    n ≤ min words.length k.maxWords := by
  obtain ⟨positive,small,kind,found⟩ := formed
  have listed : wordCount (key (words.take n)) ≤ k.maxWords := wide _ (findMember found)
  cases taken : words.take n with
  | nil =>
    have size := congrArg List.length taken
    rw [List.length_take,List.length_nil] at size
    omega
  | cons w ws =>
    have size := congrArg List.length taken
    rw [List.length_take] at size
    have counted := keyWords w ws
    rw [taken] at listed
    omega

theorem longestGreatest (wide : k.Wide) :
    k.longest? words = some (kind,n) ↔
      IsGreatest { n | k.Formed words n } n ∧ k.find? (key (words.take n)) = some kind := by
  rw [longestExact]
  constructor
  · rintro ⟨positive,small,found,longer⟩
    refine ⟨⟨⟨positive,by omega,kind,found⟩,fun i formed => ?_⟩,found⟩
    by_contra more
    have none := longer i (by omega) (formedWithin wide formed)
    obtain ⟨-,-,other,known⟩ := formed
    rw [none] at known
    exact nomatch known
  · rintro ⟨⟨formed,greatest⟩,found⟩
    refine ⟨formed.1,formedWithin wide formed,found,fun i more small => ?_⟩
    cases known : k.find? (key (words.take i)) with
    | none => rfl
    | some other =>
      have := greatest ⟨by omega,by omega,other,known⟩
      omega

theorem matchFromNone :
    k.matchFrom words n = none ↔
      ∀ i, 1 ≤ i → i ≤ n → k.find? (key (words.take i)) = none := by
  induction n with
  | zero => exact ⟨fun _ i positive small => by omega,fun _ => rfl⟩
  | succ n ih =>
    unfold matchFrom
    cases found : k.find? (key (words.take (n + 1))) with
    | some other =>
      constructor
      · intro h
        contradiction
      · intro h
        have none := h (n + 1) (by omega) (Nat.le_refl _)
        rw [found] at none
        contradiction
    | none =>
      rw [ih]
      constructor
      · intro h i positive small
        rcases Nat.eq_or_lt_of_le small with rfl | less
        · exact found
        · exact h i positive (by omega)
      · intro h i positive small
        exact h i positive (by omega)

theorem longestNone (wide : k.Wide) :
    k.longest? words = none ↔ ∀ n, ¬k.Formed words n := by
  rw [longest?,matchFromNone]
  constructor
  · rintro none n formed
    have unknown := none n formed.1 (formedWithin wide formed)
    obtain ⟨-,-,kind,found⟩ := formed
    rw [unknown] at found
    exact nomatch found
  · intro unformed i positive small
    cases found : k.find? (key (words.take i)) with
    | none => rfl
    | some kind => exact absurd ⟨positive,by omega,kind,found⟩ (unformed i)

end

/-- How calls change a table, and what it finds at the head of a list of words. -/
structure Reliable (k : Keywords) : Prop where
  refused : ∀ keyword kind conflict, k.register keyword kind = .error conflict ↔
    ∃ other, other ≠ kind ∧ k.get? keyword = some other ∧ conflict = ⟨keyword,other⟩
  unchanged : ∀ keyword kind conflict, k.register keyword kind = .error conflict →
    k.enter keyword kind = k
  entered : ∀ keyword kind grown, k.register keyword kind = .ok grown →
    grown = k.enter keyword kind ∧ grown.get? keyword = some kind
  others : ∀ keyword kind key, key ≠ keyOf keyword →
    (k.enter keyword kind).find? key = k.find? key
  lasting : ∀ calls key kind, k.find? key = some kind → (k.after calls).find? key = some kind
  longest : ∀ words kind n, k.longest? words = some (kind,n) ↔
    IsGreatest { n | k.Formed words n } n ∧ k.find? (key (words.take n)) = some kind
  unmatched : ∀ words, k.longest? words = none ↔ ∀ n, ¬k.Formed words n

theorem alwaysReliable (calls : List (Text × Kind)) : (builtin.after calls).Reliable where
  refused _ _ _ := registerRefused
  unchanged _ _ _ h := by rw [enter,h]
  entered _ _ _ := registerGives
  others _ _ _ := enterOthers
  lasting calls _ _ h := afterKeeps h calls
  longest _ _ _ := longestGreatest (wideAfter wideBuiltin calls)
  unmatched _ := longestNone (wideAfter wideBuiltin calls)

theorem alwaysReliableTaken :
    let k := builtin.after [(" sTRing".toList,.int8)]
    k.enter "String".toList .int8 = k ∧
      ∃ n, IsGreatest { n | k.Formed ["string".toList,"NULL".toList] n } n := by
  intro k
  have reliable : k.Reliable := alwaysReliable _
  have known : k.find? (key ["String".toList]) = some .string :=
    afterKeeps (nameFound .string) _
  refine ⟨reliable.unchanged _ _ _ ((reliable.refused _ _ _).mpr ⟨_,by decide,known,rfl⟩),?_⟩
  cases found : k.longest? ["string".toList,"NULL".toList] with
  | none => exact absurd ⟨by decide,by decide,_,known⟩ ((reliable.unmatched _).mp found 1)
  | some hit => exact ⟨hit.2,((reliable.longest _ _ _).mp found).1⟩

end ColumnDecl.Keywords
