import ColumnDecl.Proofs.Declaration.Keyword
import ColumnDecl.Proofs.KeywordTable
import ColumnDecl.Declaration.Modifier

/-! The built-in keywords. Every kind is found under its name. No keyword begins with a word that may
follow a type, and none goes on with one. -/
namespace ColumnDecl.Keywords
open Declaration

def modifierWords : List Text :=
  "NULL".toList :: "NOT".toList :: clauseWords.map String.toList

def Opens (word key : Text) : Prop := key = word ∨ (word ++ [' ']) <+: key

instance (word key : Text) : Decidable (Opens word key) :=
  inferInstanceAs (Decidable (_ ∨ _))

theorem opensPrefix {word key : Text} (h : Opens word key) : word <+: key := by
  rcases h with same | more
  · exact same ▸ List.prefix_rfl
  · exact (List.prefix_append _ _).trans more

theorem kindListed (kind : Kind) : kind ∈ Kind.all := by
  have placed : Kind.all[kind.ctorIdx]? = some kind := by cases kind <;> rfl
  exact List.mem_of_getElem? placed

theorem tableSeparate : ∀ e ∈ table.entries, (∀ w ∈ modifierWords, w <+: e.1 → ¬Opens w e.1) ∧
    (' ' ∈ e.1 → ∀ w ∈ modifierWords, ¬(' ' :: w) <:+: e.1) := by
  decide +kernel

theorem tableFound {kind : Kind} {t : Text} (spelled : t ∈ letters kind) :
    table.get? t = some kind := by
  have member : (t,kind) ∈ listed :=
    List.mem_flatMap.mpr ⟨kind,kindListed kind,List.mem_map_of_mem spelled⟩
  have distinct : (table.entries.map Prod.fst).Nodup := by
    rw [table,List.map_map]
    exact listedApart
  exact (Text.lookupListed distinct).mpr
    (List.mem_map_of_mem (f := fun e : Text × Kind => (keyOf e.1,e.2)) member)

theorem nameLetters (kind : Kind) : kind.name.toList ∈ (letters kind).head? := by
  have spelled := congrArg List.head? (spellingsLetters kind)
  rw [spellings,List.head?_cons,List.head?_map] at spelled
  obtain ⟨t,first,same⟩ := Option.map_eq_some_iff.mp spelled.symm
  rw [← same,String.toList_ofList]
  exact first

/- A name is one word to the table, and one token to a reader. -/
theorem namesRead : ∀ kind ∈ Kind.all, ∀ t ∈ (letters kind).head?,
    Text.words t = [t] ∧ Token.stream t = .ok [⟨.identifier,t,0⟩] := by
  decide +kernel

/- Each kind is found under its aliases too. -/
theorem spellingKnown {kind : Kind} {s : String} (spelled : s ∈ spellings kind) :
    builtin.get? s.toList = some kind := by
  rw [spellingsLetters] at spelled
  obtain ⟨t,member,rfl⟩ := List.mem_map.mp spelled
  rw [builtinTable,String.toList_ofList]
  exact tableFound member

theorem nameFound (kind : Kind) : builtin.find? (key [kind.name.toList]) = some kind := by
  have word := (namesRead kind (kindListed kind) _ (nameLetters kind)).1
  have first : kind.name ∈ spellings kind := List.mem_cons_self
  have found := spellingKnown first
  rwa [get?,keyOf,word] at found

theorem nameLexed (kind : Kind) :
    Token.stream kind.name.toList = .ok [⟨.identifier,kind.name.toList,0⟩] :=
  (namesRead kind (kindListed kind) _ (nameLetters kind)).2

theorem findMember {k : Keywords} {key : Text} {kind : Kind} (h : k.find? key = some kind) :
    (key, kind) ∈ k.entries := by
  obtain ⟨front,back,whole,_⟩ := List.lookup_eq_some_iff.mp h
  rw [whole]
  exact List.mem_append_right _ List.mem_cons_self

theorem keyCons (v w : Text) (ws : List Text) :
    key (v :: w :: ws) = (Text.upper v ++ [' ']) ++ key (w :: ws) := rfl

theorem keyOpens (w : Text) (ws : List Text) : Opens (Text.upper w) (key (w :: ws)) := by
  cases ws with
  | nil => exact .inl rfl
  | cons v ws => exact .inr ⟨key (v :: ws),(keyCons w v ws).symm⟩

/-- A word that more words may follow in a keyword. -/
def Continues (k : Keywords) (word : Text) : Prop :=
  ∃ e ∈ k.entries, (Text.upper word ++ [' ']) <+: e.1

instance (k : Keywords) (word : Text) : Decidable (k.Continues word) :=
  inferInstanceAs (Decidable (∃ e ∈ k.entries, _))

section
variable {s : Scope} {t : Token} {ts : List Token} {hit : Scope.Hit}

theorem hitWords (h : s.keyword? (t :: ts) = some hit) : ∃ used,
    Led s (t :: ts) hit (t :: used) ∧
      (key (t.value :: used.map Token.value), hit.kind) ∈ s.keywords.entries := by
  obtain ⟨words,led⟩ := keywordSound h
  rcases words with _ | ⟨u,used⟩
  · exact nomatch led.stop
  have whole := led.whole
  rw [List.cons_append,List.cons.injEq] at whole
  obtain ⟨rfl,_⟩ := whole
  refine ⟨used,led,findMember ?_⟩
  obtain ⟨_,_,found,_⟩ := longestExact.mp led.longest
  rwa [led.whole,leadingAppend led.words,List.take_left' (List.length_map _)] at found

theorem hitAlone (h : s.keyword? (t :: ts) = some hit) (alone : ¬s.keywords.Continues t.value) :
    hit.rest = ts := by
  obtain ⟨used,led,member⟩ := hitWords h
  rcases used with _ | ⟨u,used⟩
  · have whole := led.whole
    cases whole
    rfl
  · refine absurd ⟨_,member,?_⟩ alone
    rw [List.map_cons,keyCons]
    exact List.prefix_append _ _

theorem wordListed {word : Text} (h : Modifier.ofWord? word ≠ none) :
    Text.upper word ∈ modifierWords := by
  unfold Modifier.ofWord? at h
  dsimp only at h
  split at h
  next null => simp [modifierWords,null]
  next =>
    split at h
    next not => simp [modifierWords,not]
    next =>
      split at h
      next clause =>
        obtain ⟨w,member,same⟩ := List.any_eq_true.mp clause
        have spelled : w.toList = Text.upper word := by simpa using same
        rw [← spelled]
        exact List.mem_cons_of_mem _ (List.mem_cons_of_mem _ (List.mem_map_of_mem member))
      next => contradiction

theorem modifierListed (h : modifier? t ≠ none) : Text.upper t.value ∈ modifierWords := by
  unfold modifier? at h
  split at h
  · exact wordListed h
  · exact absurd rfl h

theorem hitPlain (words : s.keywords = builtin) (h : s.keyword? (t :: ts) = some hit) :
    modifier? t = none := by
  obtain ⟨used,led,member⟩ := hitWords h
  rw [words] at member
  by_contra some
  have listed := modifierListed some
  rw [builtinTable] at member
  have opens := keyOpens t.value (used.map Token.value)
  exact (tableSeparate _ member).1 _ listed (opensPrefix opens) opens

/- The name of a kind in any case, with no other word behind it. -/
theorem wordKnown {kind : Kind} {o : Token} (words : s.keywords = builtin)
    (word : t.tag = .identifier) (spelled : Text.upper t.value = Text.upper kind.name.toList)
    (other : o.tag ≠ .identifier) :
    s.keyword? (t :: o :: ts) = some ⟨kind,t.stop,o :: ts⟩ := by
  have found : builtin.find? (key [t.value]) = some kind := by
    have same : key [t.value] = key [kind.name.toList] := spelled
    rw [same]
    exact nameFound kind
  have room : 0 < builtin.maxWords := by
    rw [builtinTable]
    exact Nat.zero_lt_succ 3
  have led : Led s (t :: o :: ts) ⟨kind,t.stop,o :: ts⟩ [t] := by
    refine ⟨rfl,by simpa using word,rfl,?_⟩
    rw [leadingCons word,leadingNone other,words]
    refine longestExact.mpr ⟨Nat.one_pos,?_,found,fun i more less => ?_⟩
    · rw [List.length_singleton,List.length_singleton]
      omega
    · rw [List.length_singleton] at more less
      omega
  exact keywordComplete led

end

/-! Words behind a keyword. -/

/-- A word with which a keyword goes on behind another word. -/
def Joins (k : Keywords) (word : Text) : Prop :=
  ∃ e ∈ k.entries, (' ' :: Text.upper word) <:+: e.1

theorem builtinSeparate {word : Text} (listed : Text.upper word ∈ modifierWords) :
    ¬builtin.Joins word := by
  rintro ⟨e,member,joined⟩
  rw [builtinTable] at member
  have spaced : ' ' ∈ e.1 := joined.subset List.mem_cons_self
  exact (tableSeparate e member).2 spaced _ listed joined

theorem keyJoined {a : List Text} (some : a ≠ []) (w : Text) (b : List Text) :
    (' ' :: Text.upper w) <:+: key (a ++ w :: b) := by
  induction a with
  | nil => contradiction
  | cons v a ih =>
    rcases a with _ | ⟨u,a⟩
    · rw [List.singleton_append,keyCons,List.append_assoc]
      obtain ⟨tail,whole⟩ := opensPrefix (keyOpens w b)
      exact ⟨Text.upper v,tail,by rw [← whole]; simp⟩
    · exact (ih (List.cons_ne_nil u a)).trans (List.suffix_append _ _).isInfix

/- A keyword is not made longer by words with which none goes on. -/
theorem longestSeparate {k : Keywords} {a b : List Text} {kind : Kind}
    (h : k.longest? a = some (kind,a.length)) (separate : ∀ w ∈ b.head?, ¬k.Joins w) :
    k.longest? (a ++ b) = some (kind,a.length) := by
  obtain ⟨positive,small,found,_⟩ := longestExact.mp h
  rw [List.take_length] at found
  have inside : (a ++ b).length = a.length + b.length := List.length_append
  refine longestExact.mpr ⟨positive,by omega,by rwa [List.take_left],fun i more less => ?_⟩
  rcases b with _ | ⟨w,b⟩
  · rw [List.append_nil] at less
    omega
  have longer : (a ++ w :: b).take i = a ++ w :: b.take (i - a.length - 1) := by
    rw [List.take_append,List.take_of_length_le (by omega),List.take_cons (by omega)]
  rw [longer]
  cases reached : k.find? (key (a ++ w :: b.take (i - a.length - 1))) with
  | none => rfl
  | some other =>
    have some : a ≠ [] := List.ne_nil_of_length_pos positive
    exact absurd ⟨_,findMember reached,keyJoined some w _⟩ (separate w rfl)

end ColumnDecl.Keywords
