import ColumnDecl.Proofs.DeclarationEnd
import ColumnDecl.Proofs.Token.Window
import ColumnDecl.Proofs.Declaration.TypeRefusal

/-! How a reading ends without a column. Every refusal is a fault with a place in the text, or a number
too long to be written in a place that it does not fit; nothing is read that is not there. -/
namespace ColumnDecl

namespace Token

theorem streamRefused {source : Text} {start line limit : Nat} {t : Text} {fault : Fault}
    (h : streamFrom source start line t = .error fault) (fits : start + t.length ≤ limit) :
    fault.text = some source ∧ fault.Placed limit := by
  fun_induction streamFrom source start line t with
  | case1 => contradiction
  | case2 start line rest ih => exact ih h (by rw [List.length_cons] at fits; omega)
  | case3 start line c rest newline layout ih =>
    exact ih h (by rw [List.length_cons] at fits; omega)
  | case4 start =>
    cases h
    exact ⟨rfl,Nat.le_trans (Nat.le_add_right start _) fits⟩
  | case5 start line c rest newline layout tag n found other behind ih =>
    cases h
    have bound := lexemeBound found
    refine ih behind ?_
    rw [List.length_cons] at fits
    rw [List.length_drop]
    omega
  | case6 => contradiction

end Token

namespace Declaration
open Token

/-! Lists of declarations. -/

section
variable {s : Scope} {failure : Failure} {a : Nat} {ts : List Token}

theorem outermostRuns : Runs (outermost s) := fun _ _ _ _ _ read =>
  declarationCourse (nestedReaderRuns s.maxDepth) read

theorem columnsRefused (fits : s.stop ≤ s.text.length) (h : columns s ts = .error failure)
    (along : Along s.stop a ts) : Refusal s (HasOversized s ts) failure := by
  fun_induction columns s ts generalizing a with
  | case1 => contradiction
  | case2 t tail other read =>
    cases h
    exact outermostRefused fits read ⟨Nat.le_refl _,along.2⟩
  | case3 => contradiction
  | case4 t tail c d rest read other =>
    obtain ⟨_,behind,_⟩ := readAlong outermostRuns read along
    exact onRefused h (alongLimit behind)
  | case5 t tail c d comma read =>
    obtain ⟨_,behind,_⟩ := readAlong outermostRuns read along
    exact atRefused h (Nat.le_trans (extent d) (alongLimit behind))
  | case6 t tail c d rest read comma some shorter other next ih =>
    cases h
    obtain ⟨_,behind,suffix⟩ := readAlong outermostRuns read along
    exact refusalWider (ih next behind) fun long => oversizedSuffix long suffix
  | case7 => contradiction
  | case8 t tail c d rest read comma some longer =>
    exact absurd (Nat.le_of_lt_succ (readShorter outermostRuns read)) longer

theorem onlyRefused (fits : s.stop ≤ s.text.length) (h : only s ts = .error failure)
    (along : Along s.stop a ts) : Refusal s (HasOversized s ts) failure := by
  obtain ⟨first,here,inside⟩ := arriveAlong fits along
  unfold only at h
  rw [here] at h
  rcases bindError.mp h with h | ⟨_,same,after⟩
  · contradiction
  cases same
  rcases bindError.mp after with refused | ⟨⟨column,rest⟩,read,last⟩
  · exact outermostRefused fits refused inside
  rcases rest with _ | ⟨t,more⟩
  · contradiction
  obtain ⟨_,behind,_⟩ := readAlong outermostRuns read inside
  exact overRefused last (Nat.le_trans (extent t) (alongLimit behind)) (Nat.le_refl _)

end

/-! What the readers take for granted: a type behind a name, a last word of a keyword, a first and a
last argument, a token of a number, and a width of an enum. -/

structure Granted (s : Scope) : Prop where
  named : ∀ t ts n, named s t ts = .ok n →
    n.head :: n.rest <:+ t :: ts ∧ n.head.isDelimiter = false
  words : ∀ ts, s.keyword? ts = none → s.keywords.longest? (leading ts) = none
  items : ∀ opening ts args, arguments s opening ts = .ok args → args.items ≠ []
  number : ∀ what o value, integer s what o = .ok value → o ≠ none
  width : ∀ kind pairs, kind.isEnum = true →
    ∃ bits, (enumKind kind pairs).enumBits? = some bits ∧ 0 < bits

theorem granted (s : Scope) : Granted s where
  named t ts n h := by
    obtain ⟨front,whole⟩ := namesWhole (namesSound h)
    refine ⟨⟨front,whole.symm⟩,?_⟩
    cases namesSound h with
    | quoted _ inside => exact inside
    | type word => exact (nameQuiet (.inl word)).2
    | known _ _ _ inside => exact inside
    | unknown _ _ follows => exact (Bool.or_eq_false_iff.mp follows).2
  words ts h := keywordNone.mp h
  items opening ts args h empty := by
    cases argumentsExact.mp h with
    | last => contradiction
    | more => contradiction
  number what o value h none := by
    rw [none] at h
    contradiction
  width kind pairs enum := by
    obtain ⟨bits,known,positive,_⟩ := codePlace enum pairs 0
    exact ⟨bits,known,positive⟩

end Declaration

namespace Dialect
open Token Declaration

/-! The entry points. -/

/-- In this much of a text a type has a number too long to be written, out of the range of its place. -/
def Oversized (d : Dialect) (text : Text) (stop : Nat) : Prop :=
  ∃ ts, Token.stream (text.take stop) = .ok ts ∧ HasOversized (d.scope text stop) ts

variable {d : Dialect} {text : Text} {failure : Failure}

theorem lexingRefused {stop : Nat} {fault : Fault} {long : Prop}
    (h : Token.stream text = .error fault) (fits : text.length ≤ stop) :
    Refusal (d.scope text stop) long (.rejected fault) := by
  rw [← Nat.zero_add text.length] at fits
  obtain ⟨source,placed⟩ := streamRefused h fits
  exact .fault fault.cause.categoryKnown source placed

theorem tokensRefused {long : Prop} (h : tokens text = .error failure) :
    Refusal (d.scope text text.length) long failure := by
  unfold tokens at h
  cases lexed : Token.stream text with
  | ok ts => rw [lexed] at h; contradiction
  | error fault =>
    rw [lexed] at h
    cases h
    exact lexingRefused lexed (Nat.le_refl _)

theorem tokensAlong {ts : List Token} (h : tokens text = .ok ts) :
    Along text.length 0 ts ∧ (HasOversized (d.scope text text.length) ts →
      d.Oversized text text.length) := by
  have lexed := tokensExact.mp h
  refine ⟨lexesAlong lexed (by rw [Nat.zero_add]),fun long => ⟨ts,?_,long⟩⟩
  rw [List.take_length]
  exact streamExact.mpr lexed

theorem parseFails (h : d.parse text = .error failure) :
    Refusal (d.scope text text.length) (d.Oversized text text.length) failure := by
  rcases bindError.mp h with h | ⟨ts,lexed,h⟩
  · exact tokensRefused h
  obtain ⟨along,wider⟩ := tokensAlong lexed
  exact refusalWider (columnsRefused (Nat.le_refl _) h along) wider

theorem columnOfFails {name : Text} (h : d.columnOf name text = .error failure) :
    Refusal (d.scope text text.length) (d.Oversized text text.length) failure := by
  rcases bindError.mp h with h | ⟨ts,lexed,h⟩
  · exact tokensRefused h
  obtain ⟨along,wider⟩ := tokensAlong lexed
  rcases bindError.mp h with h | ⟨column,_,h⟩
  · exact refusalWider (onlyRefused (Nat.le_refl _) h along) wider
  · contradiction

theorem shownBehind {w : Window} {start stop : Nat} {t : Token} {us : List Token}
    (shown : w.between start stop = t :: us) : start ≤ t.start := by
  have first := List.head?_dropWhile_not (fun t : Token => decide (t.start < start)) w.tokens
  unfold Window.between at shown
  cases behind : w.tokens.dropWhile (fun t => decide (t.start < start)) with
  | nil => rw [behind] at shown; contradiction
  | cons u vs =>
    rw [behind] at shown first
    rw [List.takeWhile_cons] at shown
    split at shown
    next => cases shown; exact Nat.not_lt.mp (of_decide_eq_false first)
    next => contradiction

theorem shownOrdered {ts : List Token} {stop : Nat} (lexed : Lexes 0 (text.take stop) ts)
    (start : Nat) : Along stop 0 ((Window.mk text ts).between start stop) := by
  have fits : 0 + (text.take stop).length ≤ stop := by rw [List.length_take]; omega
  exact alongSuffix (lexesAlong lexed fits) (shownTail lexed start)

/- Layout ends no later than the first token that is shown, also where the start cuts through one. -/
theorem shownAlong {ts : List Token} {start stop first : Nat} (lexed : Lexes 0 (text.take stop) ts)
    (order : start ≤ stop) (skipped : (Window.mk text ts).skipLayout start stop = .ok first) :
    Along stop first ((Window.mk text ts).between start stop) := by
  obtain ⟨high,before⟩ := Window.skipBetween skipped order
  have along := shownOrdered lexed start
  have members := (shownTail lexed start).subset
  cases shown : (Window.mk text ts).between start stop with
  | nil => exact high
  | cons t us =>
    rw [shown] at along members
    refine ⟨?_,along.2⟩
    have behind := shownBehind shown
    obtain ⟨c,found,visible⟩ := lexesVisible lexed (members List.mem_cons_self)
    have here : (text.drop start)[t.start - start]? = some c := by
      rw [List.getElem?_drop,Nat.add_sub_cancel' behind]
      rw [Nat.sub_zero,List.getElem?_take] at found
      split at found
      next => exact found
      next => contradiction
    have := before c _ here visible
    omega

theorem windowRefused {stop : Nat} {long : Prop}
    (h : (Window.ofText text stop).mapError Failure.rejected = .error failure) :
    Refusal (d.scope (text.take stop) stop) long failure := by
  unfold Window.ofText at h
  cases lexed : Token.stream (text.take stop) with
  | ok ts => rw [lexed] at h; contradiction
  | error fault =>
    rw [lexed] at h
    cases h
    exact lexingRefused lexed (by rw [List.length_take]; omega)

theorem readColumnFails {start stop : Nat} {parent : Option Kind}
    (h : d.readColumn text start stop parent = .error failure) (order : start ≤ stop)
    (fits : stop ≤ text.length) : Refusal (d.scope text stop) (d.Oversized text stop) failure ∨
      Refusal (d.scope (text.take stop) stop) False failure := by
  rcases bindError.mp h with h | ⟨w,window,h⟩
  · exact .inr (windowRefused h)
  obtain ⟨ts,rfl,lexed⟩ := windowSound window
  rcases bindError.mp h with h | ⟨first,skipped,h⟩
  · have inside : stop ≤ start + (text.drop start).length := by rw [List.length_drop]; omega
    obtain ⟨next,runs⟩ := Window.skipWhole inside
    unfold Window.skipLayout at h
    rw [runs] at h
    contradiction
  rcases bindError.mp h with h | ⟨_,_,h⟩
  · left
    refine refusalWider (outermostRefused fits h (shownAlong lexed order skipped)) fun long => ?_
    exact ⟨ts,streamExact.mpr lexed,oversizedSuffix long (shownTail lexed start)⟩
  · contradiction

theorem outcomesKnown (d : Dialect) (text : Text) :
    (∀ failure, d.parse text = .error failure →
      Refusal (d.scope text text.length) (d.Oversized text text.length) failure) ∧
    (∀ name failure, d.columnOf name text = .error failure →
      Refusal (d.scope text text.length) (d.Oversized text text.length) failure) ∧
    (∀ start stop parent failure, start ≤ stop → stop ≤ text.length →
      d.readColumn text start stop parent = .error failure →
      Refusal (d.scope text stop) (d.Oversized text stop) failure ∨
        Refusal (d.scope (text.take stop) stop) False failure) ∧
    ∀ stop, Granted (d.scope text stop) :=
  ⟨fun _ => parseFails,fun _ _ => columnOfFails,fun _ _ _ _ order fits h => readColumnFails h order fits,
    fun _ => granted _⟩

theorem outcomesKnownLong :
    let d : Dialect := ⟨⟨[("FIXEDSTRING".toList,.fixedString)],1⟩,0⟩
    let long := "`a b` FixedString(0x".toList ++ List.replicate 3600 'f' ++ [')']
    let cut := "`a b` FixedString(1)".toList
    (d.parse long = .error .unwritableNumber ∧ d.Oversized long long.length) ∧
    ∃ failure, d.readColumn cut 2 17 none = .error failure ∧
      (Refusal (d.scope cut 17) (d.Oversized cut 17) failure ∨
        Refusal (d.scope (cut.take 17) 17) False failure) := by
  intro d long cut
  have read : d.parse long = .error .unwritableNumber := by decide +kernel
  have seen : (d.readColumn cut 2 17 none).toOption.isNone = true := by decide +kernel
  refine ⟨?_,?_⟩
  · cases (outcomesKnown d long).1 _ read with
    | number here => exact ⟨read,here⟩
  · cases refused : d.readColumn cut 2 17 none with
    | ok r => rw [refused] at seen; contradiction
    | error failure =>
      have known := (outcomesKnown d cut).2.2.1 2 17 none failure (by decide) (by decide) refused
      exact ⟨failure,rfl,known⟩

end Dialect
end ColumnDecl
