import ColumnDecl.Proofs.AggregateTable
import ColumnDecl.Proofs.Text.Apart
import Mathlib.Data.List.Basic

/-! Combinators behind the names of aggregate functions. One is taken off at a time, the first listed
one that fits; as the longer ones come first, none of the ways to read a name is lost, and the first
spelling that is met is the longest. -/
namespace ColumnDecl.Aggregate

/-- The text is the name of the function or one of its other spellings. -/
def Names (k : Text) (f : Aggregate) : Prop :=
  k = f.name.toList ∨ ∃ a ∈ aliases, k = a.1.toList ∧ f = a.2

/-- The text is this spelling of the function with combinators behind it. -/
structure Spells (n k : Text) (f : Aggregate) : Prop where
  names : Names k f
  combined : ∃ cs : List Text, (∀ c ∈ cs, c ∈ combinators) ∧ n = k ++ cs.flatten

structure Longest (n k : Text) (f : Aggregate) : Prop extends Spells n k f where
  longest : ∀ k' f', Spells n k' f' → k'.length ≤ k.length

/-- What comes of a text, after this many passes of which each takes off one combinator. -/
inductive Passes : Text → Nat → Option Aggregate → Prop where
  | found {t f} (known : spelled? t = some f) : Passes t 0 (some f)
  | stuck {t} (unknown : spelled? t = none) (bare : strip? t combinators = none) : Passes t 0 none
  | more {t r n o} (unknown : spelled? t = none) (taken : strip? t combinators = some r)
      (next : Passes r n o) : Passes t (n + 1) o

/-! Spellings. -/

theorem functionListed (f : Aggregate) : f ∈ all := by
  have placed : all[f.ctorIdx]? = some f := by cases f <;> rfl
  exact List.mem_of_getElem? placed

theorem spellingsChecked : (spellings.map Prod.fst).Nodup ∧ ∀ s ∈ spellings, s.1 ≠ [] := by
  rw [spellingsTable]
  obtain ⟨apart,some⟩ : Text.apart ((table.map Prod.fst).map Text.code) = true ∧
      ∀ s ∈ table, s.1 ≠ [] := by decide +kernel
  exact ⟨Text.codesApart apart,some⟩

theorem combinatorsOrdered : combinators.Pairwise fun c d => ¬c <:+ d := by decide

/- Where a combinator ends in another one, what it has in front of that ends no spelling, and no
combinator fits there but itself. -/
theorem combinatorsOverlap : ∀ c ∈ combinators, ∀ d ∈ combinators, d <:+ c → d ≠ c →
    (∀ s ∈ spellings, ¬c.take (c.length - d.length) <:+ s.1) ∧
    ∀ e ∈ combinators, e <:+ c.take (c.length - d.length) ∨ c.take (c.length - d.length) <:+ e →
      e = c.take (c.length - d.length) := by
  rw [spellingsTable]
  decide +kernel

theorem spellingsNames {k : Text} {f : Aggregate} : (k,f) ∈ spellings ↔ Names k f := by
  rw [spellings,List.mem_append,List.mem_map,List.mem_map]
  constructor
  · intro h
    rcases h with ⟨g,_,same⟩ | ⟨a,member,same⟩
    · cases same
      exact .inl rfl
    · cases same
      exact .inr ⟨a,member,rfl,rfl⟩
  · intro h
    rcases h with rfl | ⟨a,member,rfl,rfl⟩
    · exact .inl ⟨f,functionListed f,rfl⟩
    · exact .inr ⟨a,member,rfl⟩

theorem spelledExact {k : Text} {f : Aggregate} : spelled? k = some f ↔ Names k f := by
  rw [← spellingsNames,spelled?,Text.lookupListed spellingsChecked.1]

theorem namesSome {k : Text} {f : Aggregate} (h : Names k f) : k ≠ [] := by
  rw [← spellingsNames] at h
  exact spellingsChecked.2 _ h

/-! One pass. -/

/-- Something stands in front of the combinator. -/
def Ends (t c : Text) : Prop := c.length < t.length ∧ c <:+ t

theorem endsAppend {r : Text} (some : r ≠ []) (c : Text) : Ends (r ++ c) c := by
  have := List.length_pos_iff.mpr some
  exact ⟨by rw [List.length_append]; omega,List.suffix_append r c⟩

theorem stripSound {t r : Text} {cs : List Text} (h : strip? t cs = some r) :
    ∃ front c back, cs = front ++ c :: back ∧ t = r ++ c ∧ ∀ d ∈ front, ¬Ends t d := by
  induction cs with
  | nil => contradiction
  | cons c cs ih =>
    unfold strip? at h
    split at h
    next fits =>
      cases h
      obtain ⟨r,rfl⟩ := List.isSuffixOf_iff_suffix.mp fits.2
      exact ⟨[],c,cs,rfl,by simp,fun d member => absurd member List.not_mem_nil⟩
    next other =>
      obtain ⟨front,d,back,rfl,whole,passed⟩ := ih h
      refine ⟨c :: front,d,back,rfl,whole,fun x member => ?_⟩
      rcases List.mem_cons.mp member with rfl | member
      · exact fun ends => other ⟨ends.1,List.isSuffixOf_iff_suffix.mpr ends.2⟩
      · exact passed x member

theorem stripNone {t : Text} {cs : List Text} (h : strip? t cs = none) : ∀ c ∈ cs, ¬Ends t c := by
  induction cs with
  | nil => exact nofun
  | cons c cs ih =>
    unfold strip? at h
    split at h
    next => contradiction
    next other =>
      intro x member
      rcases List.mem_cons.mp member with rfl | member
      · exact fun ends => other ⟨ends.1,List.isSuffixOf_iff_suffix.mpr ends.2⟩
      · exact ih h x member

theorem spellsSome {n k : Text} {f : Aggregate} (h : Spells n k f) : n ≠ [] := by
  obtain ⟨names,cs,_,rfl⟩ := h
  exact fun none => namesSome names (List.append_eq_nil_iff.mp none).1

theorem spellsMore {r k : Text} {f : Aggregate} (h : Spells r k f) {c : Text}
    (member : c ∈ combinators) : Spells (r ++ c) k f := by
  obtain ⟨names,cs,each,rfl⟩ := h
  refine ⟨names,cs ++ [c],fun d hd => ?_,by simp⟩
  rcases List.mem_append.mp hd with hd | hd
  · exact each d hd
  · cases List.mem_singleton.mp hd
    exact member

theorem spellsLast {n k : Text} {f : Aggregate} (h : Spells n k f) :
    n = k ∨ ∃ r d, d ∈ combinators ∧ n = r ++ d ∧ Spells r k f := by
  obtain ⟨names,cs,each,rfl⟩ := h
  rcases List.eq_nil_or_concat' cs with rfl | ⟨ds,d,rfl⟩
  · exact .inl (by simp)
  · have front : Spells (k ++ ds.flatten) k f :=
      ⟨names,ds,fun c hc => each c (List.mem_append_left _ hc),rfl⟩
    exact .inr ⟨k ++ ds.flatten,d,each d (by simp),by simp,front⟩

theorem spellsStripped {n r k : Text} {f : Aggregate} (unknown : spelled? n = none)
    (taken : strip? n combinators = some r) : Spells n k f ↔ Spells r k f := by
  obtain ⟨front,c,back,listed,rfl,passed⟩ := stripSound taken
  have member : c ∈ combinators := by rw [listed]; simp
  refine ⟨fun spells => ?_,fun spells => spellsMore spells member⟩
  have known := spelledExact.mpr spells.names
  rcases spellsLast spells with rfl | ⟨r',d,last,whole,before⟩
  · rw [unknown] at known
    contradiction
  have ends : Ends (r ++ c) d := whole ▸ endsAppend (spellsSome before) d
  have place := last
  rw [listed] at place
  rcases List.mem_append.mp place with earlier | later
  · exact absurd ends (passed d earlier)
  rcases List.mem_cons.mp later with rfl | behind
  · cases List.append_cancel_right whole
    exact before
  -- A combinator was taken that is longer than the last one, so it covers more than that one.
  have shorter : ¬c <:+ d := by
    have ordered := combinatorsOrdered
    rw [listed] at ordered
    exact List.rel_of_pairwise_cons (List.pairwise_append.mp ordered).2.1 behind
  have inside : d <:+ c :=
    (List.suffix_or_suffix_of_suffix ends.2 (List.suffix_append r c)).resolve_right shorter
  obtain ⟨x,rfl⟩ := inside
  have other : d ≠ x ++ d := fun same => shorter (same ▸ List.suffix_rfl)
  have overlap := combinatorsOverlap _ member d last (List.suffix_append x d) other
  have start : (x ++ d).take ((x ++ d).length - d.length) = x := by simp
  rw [start] at overlap
  rw [← List.append_assoc] at whole
  cases List.append_cancel_right whole
  rcases spellsLast before with same | ⟨r',e,last',whole',before'⟩
  · exact absurd (same ▸ List.suffix_append r x) (overlap.1 _ (spellingsNames.mpr spells.names))
  · have fits := List.suffix_or_suffix_of_suffix (whole' ▸ List.suffix_append r' e)
      (List.suffix_append r x)
    cases overlap.2 e last' fits
    cases List.append_cancel_right whole'
    exact before'

/-! All passes. -/

theorem spellsNone {n k : Text} {f : Aggregate} (unknown : spelled? n = none)
    (bare : strip? n combinators = none) : ¬Spells n k f := by
  intro spells
  have known := spelledExact.mpr spells.names
  rcases spellsLast spells with rfl | ⟨r,d,last,rfl,before⟩
  · rw [unknown] at known
    contradiction
  · exact stripNone bare d last (endsAppend (spellsSome before) d)

theorem longestSelf {n : Text} {f : Aggregate} (known : spelled? n = some f) : Longest n n f := by
  refine ⟨⟨spelledExact.mp known,[],nofun,by simp⟩,fun k' f' spells => ?_⟩
  obtain ⟨_,cs,_,whole⟩ := spells
  rw [whole,List.length_append]
  omega

theorem resolvePasses (n : Text) : ∃ passes, passes ≤ n.length ∧ Passes n passes (resolve? n) := by
  fun_induction resolve? n with
  | case1 n f known => exact ⟨0,Nat.zero_le _,.found known⟩
  | case2 n unknown r taken ih =>
    obtain ⟨passes,few,run⟩ := ih
    have shorter := stripShortens combinatorsNonempty taken
    exact ⟨passes + 1,by omega,.more unknown taken run⟩
  | case3 n unknown bare => exact ⟨0,Nat.zero_le _,.stuck unknown bare⟩

theorem resolveSpells (n : Text) :
    (∀ f, resolve? n = some f → ∃ k, Longest n k f) ∧ (resolve? n = none → ∀ k f, ¬Spells n k f) := by
  obtain ⟨passes,-,run⟩ := resolvePasses n
  generalize resolve? n = o at run ⊢
  induction run with
  | @found n f known =>
    refine ⟨fun g same => ?_,nofun⟩
    cases same
    exact ⟨n,longestSelf known⟩
  | stuck unknown bare => exact ⟨nofun,fun _ k f => spellsNone unknown bare⟩
  | more unknown taken _ ih =>
    have stripped {k : Text} {f : Aggregate} := spellsStripped (k := k) (f := f) unknown taken
    refine ⟨fun f found => ?_,fun none k f spells => ih.2 none k f (stripped.mp spells)⟩
    obtain ⟨k,spells,longest⟩ := ih.1 f found
    exact ⟨k,stripped.mpr spells,fun k' f' other => longest k' f' (stripped.mp other)⟩

theorem longestUnique {n k k' : Text} {f f' : Aggregate} (left : Longest n k f)
    (right : Longest n k' f') : f = f' := by
  obtain ⟨_,_,whole⟩ := left.combined
  obtain ⟨_,_,whole'⟩ := right.combined
  have size : k.length = k'.length :=
    Nat.le_antisymm (right.longest k f left.toSpells) (left.longest k' f' right.toSpells)
  have same : k = k' := (List.append_inj (whole.symm.trans whole') size).1
  have known := spelledExact.mpr left.names
  rw [same,spelledExact.mpr right.names] at known
  exact (Option.some.inj known).symm

theorem passesUnique {t : Text} {n m : Nat} {o p : Option Aggregate} (left : Passes t n o)
    (right : Passes t m p) : o = p := by
  induction left generalizing m p with
  | found known =>
    cases right with
    | found known' => exact known.symm.trans known'
    | stuck unknown | more unknown => exact nomatch known.symm.trans unknown
  | stuck unknown bare =>
    cases right with
    | found known => exact nomatch known.symm.trans unknown
    | stuck => rfl
    | more _ taken => exact nomatch taken.symm.trans bare
  | more unknown taken _ ih =>
    cases right with
    | found known => exact nomatch known.symm.trans unknown
    | stuck _ bare => exact nomatch taken.symm.trans bare
    | more _ taken' next =>
      cases taken.symm.trans taken'
      exact ih next

theorem passesResolve {t : Text} {n : Nat} {o : Option Aggregate} (run : Passes t n o) :
    resolve? t = o := by
  obtain ⟨_,_,run'⟩ := resolvePasses t
  exact passesUnique run' run

theorem resolvedLongest (n : Text) :
    (∀ f, resolve? n = some f ↔ ∃ k, Longest n k f) ∧
    (resolve? n = none ↔ ∀ k f, ¬Spells n k f) ∧
    ∃ passes, passes ≤ n.length ∧ Passes n passes (resolve? n) := by
  obtain ⟨found,unknown⟩ := resolveSpells n
  refine ⟨fun f => ⟨found f,fun ⟨k,longest⟩ => ?_⟩,⟨unknown,fun none => ?_⟩,resolvePasses n⟩
  · cases resolved : resolve? n with
    | none => exact absurd longest.toSpells (unknown resolved k f)
    | some g =>
      obtain ⟨k',longest'⟩ := found g resolved
      rw [longestUnique longest' longest]
  · cases resolved : resolve? n with
    | none => rfl
    | some g =>
      obtain ⟨k,longest⟩ := found g resolved
      exact absurd longest.toSpells (none k g)

/- The state of a merge is a combinator of its own and ends in another one; alone it names nothing. -/
theorem resolvedLongestMerge :
    (∃ k, Longest "sumMapMergeStateIf".toList k .sumMap) ∧
      ∀ k f, ¬Spells "MergeStateIf".toList k f := by
  obtain ⟨unknown,unknown',known⟩ : spelled? "sumMapMergeStateIf".toList = none ∧
      spelled? "sumMapMergeState".toList = none ∧ spelled? "sumMap".toList = some .sumMap := by
    simp only [spelled?,spellingsTable]
    decide +kernel
  obtain ⟨bare,bare',stuck⟩ : spelled? "MergeStateIf".toList = none ∧
      spelled? "MergeState".toList = none ∧ spelled? "Merge".toList = none := by
    simp only [spelled?,spellingsTable]
    decide +kernel
  have found : Passes "sumMapMergeStateIf".toList 2 (some .sumMap) :=
    .more unknown (by decide +kernel) (.more unknown' (by decide +kernel) (.found known))
  have nothing : Passes "MergeStateIf".toList 2 none :=
    .more bare (by decide +kernel) (.more bare' (by decide +kernel) (.stuck stuck (by decide +kernel)))
  obtain ⟨longest,_⟩ := resolvedLongest "sumMapMergeStateIf".toList
  obtain ⟨_,none,_⟩ := resolvedLongest "MergeStateIf".toList
  exact ⟨(longest .sumMap).mp (passesResolve found),none.mp (passesResolve nothing)⟩

end ColumnDecl.Aggregate
