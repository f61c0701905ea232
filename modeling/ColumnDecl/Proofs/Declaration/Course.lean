import ColumnDecl.Proofs.Declaration.Local
import ColumnDecl.Proofs.Token.Balance

/-! The course of a declaration through its tokens: how many lists the reader is in, and which
stretches it leaves to a cut that starts to count anew. -/
namespace ColumnDecl.Declaration
open Token

/-- From inside `n` lists to inside as many as the last number says; `behind` is what comes after. Only
a clause can run out of tokens with brackets left open. -/
inductive Course (behind : List Token) : Nat → List Token → Nat → Prop where
  | done (n : Nat) : Course behind n [] n
  | plain {n t ts m} (quiet : t.bracket? = none) (inside : t.isDelimiter = false)
      (next : Course behind n ts m) : Course behind n (t :: ts) m
  | opens {n t ts m} (opening : t.tag = .opening) (next : Course behind (n + 1) ts m) :
      Course behind n (t :: ts) m
  | comma {n t ts m} (comma : t.tag = .comma) (next : Course behind (n + 1) ts m) :
      Course behind (n + 1) (t :: ts) m
  | closes {n t ts m} (closing : t.tag = .closing) (next : Course behind n ts m) :
      Course behind (n + 1) (t :: ts) m
  | stretch {n a ts m} (here : cut (a ++ (ts ++ behind)) = (a,ts ++ behind))
      (stops : ts ++ behind ≠ []) (next : Course behind n ts m) : Course behind n (a ++ ts) m
  | runsOut {n t body} (word : modifier? t = some .clause) (last : behind = [])
      (here : cut body = (body,[])) : Course behind n (t :: body) n

theorem courseNone {behind used : List Token} {n m : Nat} (h : Course behind n used m)
    (none : used = []) (last : behind = []) : n = m := by
  cases h with
  | done => rfl
  | stretch here stops next =>
    rw [(List.append_eq_nil_iff.mp none).2,last] at stops
    contradiction
  | plain | opens | comma | closes | runsOut => contradiction

theorem courseAppend {behind a b : List Token} {n m k : Nat} (first : Course (b ++ behind) n a m)
    (second : Course behind m b k) : Course behind n (a ++ b) k := by
  generalize whole : b ++ behind = rest at first
  induction first with
  | done => exact second
  | plain quiet inside next ih => exact .plain quiet inside (ih second)
  | opens opening next ih => exact .opens opening (ih second)
  | comma comma next ih => exact .comma comma (ih second)
  | closes closing next ih => exact .closes closing (ih second)
  | stretch here stops next ih =>
    subst whole
    rw [List.append_assoc]
    rw [← List.append_assoc _ b behind] at here stops
    exact .stretch here stops (ih second)
  | runsOut word last here =>
    subst whole
    obtain ⟨none,last⟩ := List.append_eq_nil_iff.mp last
    rw [← courseNone second none last,none,List.append_nil]
    exact .runsOut word last here

theorem courseDeeper {behind used : List Token} {n m : Nat} (h : Course behind n used m) :
    Course behind (n + 1) used (m + 1) := by
  induction h with
  | done n => exact .done (n + 1)
  | plain quiet inside next ih => exact .plain quiet inside ih
  | opens opening next ih => exact .opens opening ih
  | comma comma next ih => exact .comma comma ih
  | closes closing next ih => exact .closes closing ih
  | stretch here stops next ih => exact .stretch here stops ih
  | runsOut word last here => exact .runsOut word last here

def IsName (t : Token) : Prop := t.tag = .identifier ∨ t.tag = .quotedIdentifier

theorem nameQuiet {t : Token} (h : IsName t) : t.bracket? = none ∧ t.isDelimiter = false := by
  rcases h with tag | tag
  all_goals simp [bracket?,isDelimiter,tag]

theorem courseNames {behind used : List Token} (n : Nat) (h : ∀ t ∈ used, IsName t) :
    Course behind n used n := by
  induction used with
  | nil => exact .done n
  | cons t used ih =>
    obtain ⟨quiet,inside⟩ := nameQuiet (h t List.mem_cons_self)
    exact .plain quiet inside (ih fun u hu => h u (List.mem_cons_of_mem t hu))

/- Where no kinds of brackets are mixed, one count begun in front of a declaration passes all that is
cut off in it by a count of its own. -/
theorem coursePassed {behind used : List Token} {n m : Nat} {final : List Char}
    (h : Course behind n used m) (unmixed : awaitedBehind (lists n) used = some final) :
    Passed n used := by
  have level : ∀ {n m : Nat} {t : Token}, awaitedAfter (lists n) t = some (lists m) →
      t.depthAfter n = m := by
    intro n m t h
    have sizes := awaitedDepth h
    rwa [listsLength,listsLength] at sizes
  induction h with
  | done n => exact passedNone n
  | @plain n t ts m quiet inside next ih =>
    have first := awaitedQuiet (lists n) quiet
    obtain ⟨_,step,rest⟩ := foldCons.mp unmixed
    cases first.symm.trans step
    refine passedToken (fun here => ?_) ((level first).symm ▸ ih rest)
    rw [inside] at here
    exact nomatch here.2
  | @opens n t ts m opening next ih =>
    have first : awaitedAfter (lists n) t = some (lists (n + 1)) := awaitedOpening (lists n) opening
    obtain ⟨_,step,rest⟩ := foldCons.mp unmixed
    cases first.symm.trans step
    refine passedToken (fun here => ?_) ((level first).symm ▸ ih rest)
    simp [isDelimiter,opening] at here
  | @comma n t ts m comma next ih =>
    have first := awaitedQuiet (lists (n + 1)) (show t.bracket? = none by simp [bracket?,comma])
    obtain ⟨_,step,rest⟩ := foldCons.mp unmixed
    cases first.symm.trans step
    exact passedToken (fun here => Nat.succ_ne_zero n here.1) ((level first).symm ▸ ih rest)
  | @closes n t ts m closing next ih =>
    have first : awaitedAfter (lists (n + 1)) t = some (lists n) := awaitedClosing (lists n) closing
    obtain ⟨_,step,rest⟩ := foldCons.mp unmixed
    cases first.symm.trans step
    exact passedToken (fun here => Nat.succ_ne_zero n here.1) ((level first).symm ▸ ih rest)
  | @stretch n a ts m here stops next ih =>
    obtain ⟨middle,first,rest⟩ := foldAppend.mp unmixed
    obtain ⟨rfl,_⟩ := stretchSettled here stops first
    have along := behindDepth first
    rw [listsLength] at along
    exact passedAppend (passedCut here (Nat.zero_le n)) (along.symm ▸ ih rest)
  | @runsOut n t body word last here =>
    obtain ⟨quiet,inside⟩ := nameQuiet (.inl (modifierWord word))
    refine passedToken (fun here => ?_) (passedCut here (Nat.zero_le _))
    rw [inside] at here
    exact nomatch here.2

/-! Lists. -/

theorem betweenComma {d : Token} {rest : List Token} (ended : Ended (d :: rest))
    (between : d.tag ≠ .closing) : d.tag = .comma := (endedTag ended).resolve_right between

theorem splitCourse {start : Nat} {ts : List Token} {args : Arguments} (h : Split start ts args) :
    ∃ used, ts = used ++ args.rest ∧ Course args.rest 1 used 0 := by
  induction h with
  | @last start ts a d rest here closing =>
    obtain ⟨rfl,_,_⟩ := cutEnded here
    refine ⟨a ++ [d],by simp,.stretch here (List.cons_ne_nil d rest) ?_⟩
    exact .closes closing (.done 0)
  | @more start ts a d rest args here inner next ih =>
    obtain ⟨rfl,ended,_⟩ := cutEnded here
    obtain ⟨used,whole,course⟩ := ih
    refine ⟨a ++ d :: used,by rw [whole]; simp,?_⟩
    rw [whole] at here
    exact .stretch here (List.cons_ne_nil _ _) (.comma (betweenComma ended inner) course)

def Runs (inner : Reader) : Prop :=
  ∀ names start ts c rest, inner names start ts = .ok (c,rest) →
    ∃ used, ts = used ++ rest ∧ Ended rest ∧ Course rest 0 used 0

section
variable {inner : Scope → Reader} {s : Scope}

theorem listedCourse {inner : Reader} {kind : Kind} {start : Nat} {ts : List Token} {p : Parts}
    (runs : Runs inner) (h : Listed inner kind start ts p) :
    ∃ used, ts = used ++ p.rest ∧ Course p.rest 1 used 0 := by
  induction h with
  | @last start ts c d rest read closing =>
    obtain ⟨used,whole,_,course⟩ := runs _ _ _ _ _ read
    refine ⟨used ++ [d],by rw [whole]; simp,courseAppend (courseDeeper course) ?_⟩
    exact .closes closing (.done 0)
  | @more start ts c d rest p read between shorter next ih =>
    obtain ⟨used,whole,ended,course⟩ := runs _ _ _ _ _ read
    obtain ⟨used',whole',course'⟩ := ih
    refine ⟨used ++ d :: used',by rw [whole,whole']; simp,?_⟩
    rw [whole'] at course
    exact courseAppend (courseDeeper course) (.comma (betweenComma ended between) course')

theorem callsCourse {ts : List Token} {c : Call} (h : Calls s ts c) :
    ∃ used, ts = used ++ c.rest ∧ Course c.rest 1 used 1 := by
  cases h with
  | @plain t rest name plain =>
    refine ⟨[t],rfl,courseNames 1 fun u hu => ?_⟩
    cases List.mem_singleton.mp hu
    exact name
  | @applied t o rest args written name opening split each =>
    obtain ⟨used,whole,course⟩ := splitCourse split
    obtain ⟨quiet,inside⟩ := nameQuiet name
    refine ⟨t :: o :: used,by rw [whole]; rfl,.plain quiet inside (.opens opening ?_)⟩
    exact courseDeeper course

theorem followsCourse {inner : Reader} {kind : Kind} {ts : List Token} {p : Parts}
    (runs : Runs inner) (h : Follows inner kind ts p) :
    ∃ used, ts = used ++ p.rest ∧ Course p.rest 1 used 0 := by
  cases h with
  | @none t rest closing => exact ⟨[t],rfl,.closes closing (.done 0)⟩
  | @some t rest p comma list =>
    obtain ⟨used,whole,course⟩ := listedCourse runs list
    exact ⟨t :: used,by rw [whole]; rfl,.comma comma course⟩

/-! Types, form by form. -/

def FormRuns (form : Form) : Prop :=
  ∀ s h opening ts r, form s h opening ts = .ok r →
    ∃ used, ts = used ++ r.rest ∧ Course r.rest 1 used 0

theorem ignoredCourse : FormRuns ignored := by
  intro s h opening ts r read
  unfold ignored at read
  split at read
  next => contradiction
  next =>
    obtain ⟨args,split,read⟩ := bindOk.mp read
    obtain ⟨column,_,read⟩ := bindOk.mp read
    cases read
    exact splitCourse (argumentsExact.mp split)

theorem parameterisedCourse : FormRuns parameterised := by
  intro s h opening ts r read
  obtain ⟨args,split,read⟩ := bindOk.mp read
  have course := splitCourse (argumentsExact.mp split)
  dsimp only at read
  split at read
  next =>
    obtain ⟨_,_,read⟩ := bindOk.mp read
    obtain ⟨column,_,read⟩ := bindOk.mp read
    cases read
    exact course
  next =>
    obtain ⟨_,_,read⟩ := bindOk.mp read
    obtain ⟨column,_,read⟩ := bindOk.mp read
    cases read
    exact course

theorem wrappedCourse (runs : ∀ s, Runs (inner s)) : FormRuns fun s => wrapped s (inner s) := by
  intro s h opening ts r read
  obtain ⟨list,found,read⟩ := bindOk.mp read
  have course := listedCourse (runs s) (listedSound found)
  dsimp only at read
  split at read
  next => cases read; exact course
  next => contradiction

theorem composedCourse (runs : ∀ s, Runs (inner s)) : FormRuns fun s => composed s (inner s) := by
  intro s h opening ts r read
  obtain ⟨list,found,read⟩ := bindOk.mp read
  obtain ⟨column,_,read⟩ := bindOk.mp read
  cases read
  exact listedCourse (runs s) (listedSound found)

theorem aggregatedCourse (runs : ∀ s, Runs (inner s)) :
    FormRuns fun s => aggregated s (inner s) := by
  intro s h opening ts r read
  obtain ⟨c,called,read⟩ := bindOk.mp read
  obtain ⟨list,found,read⟩ := bindOk.mp read
  obtain ⟨column,_,read⟩ := bindOk.mp read
  cases read
  obtain ⟨first,whole,course⟩ := callsCourse (callsSound called)
  obtain ⟨second,whole',course'⟩ := followsCourse (runs s) (followsExact.mp found)
  refine ⟨first ++ second,by rw [whole,whole',List.append_assoc],?_⟩
  rw [whole'] at course
  exact courseAppend course course'

theorem formCourse (runs : ∀ s, Runs (inner s)) (kind : Kind) : FormRuns (formOf inner kind) := by
  unfold formOf
  split
  · exact wrappedCourse runs
  split
  · exact aggregatedCourse runs
  split
  · exact ignoredCourse
  · exact composedCourse runs
  · exact parameterisedCourse

/-! Declarations. -/

variable {name : Text} {start : Nat} {t : Token} {ts : List Token}

theorem typeCourse (runs : ∀ s, Runs (inner s)) {r : Typed}
    (h : type s (inner s) name start t ts = .ok r) :
    ∃ used, t :: ts = used ++ r.rest ∧ Course r.rest 0 used 0 := by
  obtain ⟨hit,known,⟨_,read⟩ | ⟨o,rest,opens,read⟩⟩ := typeSound h
  · obtain ⟨words,led⟩ := keywordSound known
    obtain ⟨_,c,_,rfl⟩ := bareExact.mp read
    exact ⟨words,led.whole,courseNames 0 fun u hu => .inl (led.words u hu)⟩
  · obtain ⟨words,led⟩ := keywordSound known
    obtain ⟨behind,opening⟩ := openedExact.mp opens
    obtain ⟨used,whole,course⟩ := formCourse runs _ _ _ _ _ _ read
    refine ⟨words ++ o :: used,by rw [led.whole,behind,whole]; simp,?_⟩
    exact courseAppend (courseNames 0 fun u hu => .inl (led.words u hu)) (.opens opening course)

theorem modifiersNames {nullable last : Bool} {stop final : Nat} {mods : List Token}
    (h : Modifiers nullable stop mods last final) : ∀ t ∈ mods, IsName t := by
  induction h with
  | none => intro t ht; contradiction
  | null here rest ih =>
    intro u hu
    rcases List.mem_cons.mp hu with rfl | hu
    · exact .inl (modifierWord here)
    · exact ih u hu
  | notNull here next rest ih =>
    intro u hu
    rcases List.mem_cons.mp hu with rfl | hu
    · exact .inl (modifierWord here)
    rcases List.mem_cons.mp hu with rfl | hu
    · exact .inl (modifierWord next)
    · exact ih u hu

theorem clauseCourse {clause rest : List Token} (h : Clause clause rest) (n : Nat) :
    Course rest n clause n := by
  rcases clause with _ | ⟨t,body⟩
  · exact .done n
  obtain ⟨word,here⟩ := h
  rcases rest with _ | ⟨d,rest⟩
  · rw [List.append_nil] at here
    exact .runsOut word rfl here
  · obtain ⟨quiet,inside⟩ := nameQuiet (.inl (modifierWord word))
    have stretch : Course (d :: rest) n (body ++ []) n :=
      .stretch here (List.cons_ne_nil d rest) (.done n)
    rw [List.append_nil] at stretch
    exact .plain quiet inside stretch

theorem bodyCourse (runs : ∀ s, Runs (inner s)) {c : Column} {rest : List Token}
    (h : body s (inner s) name start t ts = .ok (c,rest)) :
    ∃ used, t :: ts = used ++ rest ∧ Ended rest ∧ Course rest 0 used 0 := by
  obtain ⟨typed,after,mods,clause,read,done,same⟩ := bodyExact.mp h
  cases same
  obtain ⟨used,whole,course⟩ := typeCourse runs read
  refine ⟨used ++ (mods ++ clause),by rw [whole,done.whole]; simp,done.ended,?_⟩
  rw [done.whole] at course
  refine courseAppend course (courseAppend ?_ (clauseCourse done.clause 0))
  exact courseNames 0 (modifiersNames done.modifiers)

theorem beginsNames {names : Bool} {n : Named} (h : Begins s names t ts n) :
    ∃ front, t :: ts = front ++ n.head :: n.rest ∧ ∀ u ∈ front, IsName u := by
  have alone : IsName t → ∀ u ∈ [t], IsName u := by
    intro name u hu
    cases List.mem_singleton.mp hu
    exact name
  cases h with
  | plain => exact ⟨[],rfl,nofun⟩
  | named name =>
    cases name with
    | type => exact ⟨[],rfl,nofun⟩
    | quoted quote => exact ⟨[t],rfl,alone (.inr quote)⟩
    | known word | unknown word => exact ⟨[t],rfl,alone (.inl word)⟩

theorem declarationSound {inner : Reader} {names : Bool} {r : Column × List Token}
    (h : declaration s inner names start (t :: ts) = .ok r) :
    ∃ n first, Begins s names t ts n ∧ body s inner n.name first n.head n.rest = .ok r := by
  unfold declaration at h
  dsimp only at h
  split at h
  next => contradiction
  cases names with
  | false => exact ⟨_,start,.plain t ts,h⟩
  | true =>
    obtain ⟨n,name,read⟩ := bindOk.mp h
    exact ⟨n,n.head.start,.named (namesSound name),read⟩

theorem declarationCourse (runs : ∀ s, Runs (inner s)) {names : Bool} {c : Column}
    {rest : List Token} (h : declaration s (inner s) names start ts = .ok (c,rest)) :
    ∃ used, ts = used ++ rest ∧ Ended rest ∧ Course rest 0 used 0 := by
  rcases ts with _ | ⟨t,ts⟩
  · contradiction
  obtain ⟨n,first,begins,read⟩ := declarationSound h
  obtain ⟨front,split,quiet⟩ := beginsNames begins
  obtain ⟨used,whole,ended,course⟩ := bodyCourse runs read
  refine ⟨front ++ used,by rw [split,whole,List.append_assoc],ended,?_⟩
  exact courseAppend (courseNames 0 quiet) course

theorem nestedReaderRuns (level : Nat) : ∀ s, Runs (nestedReader s level) := by
  induction level with
  | zero => intro s names start ts c rest h; contradiction
  | succ level ih =>
    intro s names start ts c rest h
    obtain ⟨below,t,tail,same,rfl,read⟩ := nestedReaderExact.mp h
    cases same
    exact declarationCourse ih read

end
end ColumnDecl.Declaration
