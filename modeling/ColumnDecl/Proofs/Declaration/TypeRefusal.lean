import ColumnDecl.Proofs.Declaration.Course
import ColumnDecl.Proofs.Declaration.Excerpt
import ColumnDecl.Proofs.Declaration.Refusal
import ColumnDecl.Proofs.WellFormed

/-! What is refused of a type and of a declaration, reader by reader. The readers lean on the tokens in
front of them to lie along the text, and leave them so. -/
namespace ColumnDecl.Declaration
open Token

/-- Somewhere in these tokens a type has a number too long to be written, out of the range of its
place. -/
def HasOversized (s : Scope) (ts : List Token) : Prop :=
  ∃ us hit opening rest args, us <:+ ts ∧ s.keyword? us = some hit ∧
    opened? hit.rest = some (opening,rest) ∧ arguments s opening rest = .ok args ∧
    OversizedIn hit.kind args.items

theorem oversizedSuffix {s : Scope} {ts us : List Token} (h : HasOversized s us) (suffix : us <:+ ts) :
    HasOversized s ts := by
  obtain ⟨vs,hit,opening,rest,args,inside,found⟩ := h
  exact ⟨vs,hit,opening,rest,args,inside.trans suffix,found⟩

theorem closesAlong {limit a stop : Nat} {used rest : List Token} (h : Along limit a (used ++ rest))
    (closes : Closes used stop) : a ≤ stop ∧ Along limit stop rest := by
  obtain ⟨front,t,rfl,rfl⟩ := closesLast closes
  rw [List.append_assoc] at h
  obtain ⟨order,behind⟩ := alongBehind h
  exact ⟨Nat.le_trans order (extent t),behind⟩

/-! Names, and what follows a type. -/

section
variable {s : Scope} {failure : Failure} {long : Prop}

theorem suffixRefused {nullable : Bool} {stop : Nat} {ts : List Token}
    (h : suffix s nullable stop ts = .error failure) (tokens : ∀ t ∈ ts, t.stop ≤ s.stop) :
    Refusal s long failure := by
  fun_induction suffix s nullable stop ts with
  | case1 => contradiction
  | case2 => contradiction
  | case3 nullable stop t ts inside here ih =>
    exact ih h fun u member => tokens u (List.mem_cons_of_mem t member)
  | case4 => exact onRefused h (tokens _ List.mem_cons_self)
  | case5 nullable stop t inside here n rest next ih =>
    exact ih h fun u member => tokens u (List.mem_cons_of_mem t (List.mem_cons_of_mem n member))
  | case6 => exact onRefused h (tokens _ List.mem_cons_self)
  | case7 => contradiction
  | case8 => exact onRefused h (tokens _ List.mem_cons_self)

theorem givenRefused {t : Token} {ts : List Token} (h : givenName s t ts = .error failure)
    (fits : t.stop ≤ s.stop) : Refusal s long failure := by
  unfold givenName at h
  split at h
  next => exact onRefused h fits
  next =>
    split at h
    next => exact onRefused h fits
    next => contradiction

theorem namedRefused {t : Token} {ts : List Token} (h : named s t ts = .error failure)
    (fits : t.stop ≤ s.stop) : Refusal s long failure := by
  unfold named at h
  split at h
  next => exact givenRefused h fits
  next =>
    split at h
    next =>
      split at h
      next => contradiction
      next => exact givenRefused h fits
    next =>
      split at h
      next => exact onRefused h fits
      next => exact givenRefused h fits
  next => exact onRefused h fits

end

/-! Lists of nested declarations. -/

def Refuses (s : Scope) (inner : Reader) : Prop :=
  ∀ names start ts failure, Along s.stop start ts → inner names start ts = .error failure →
    Refusal s (HasOversized s ts) failure

section
variable {s : Scope} {inner : Reader} {kind : Kind} {failure : Failure}

section
variable {names : Bool} {start : Nat} {ts rest : List Token} {c : Column} {d : Token}

theorem readAlong (runs : Runs inner) {a limit : Nat}
    (read : inner names start ts = .ok (c,d :: rest)) (along : Along limit a ts) :
    a ≤ d.start ∧ Along limit d.stop rest ∧ rest <:+ ts := by
  obtain ⟨used,rfl,_⟩ := runs _ _ _ _ _ read
  obtain ⟨order,behind⟩ := alongBehind along
  exact ⟨order,behind,used ++ [d],by simp⟩

theorem readShorter (runs : Runs inner) (read : inner names start ts = .ok (c,d :: rest)) :
    rest.length < ts.length := by
  obtain ⟨used,rfl,_⟩ := runs _ _ _ _ _ read
  rw [List.length_append,List.length_cons]
  omega

end

theorem listedAlong (runs : Runs inner) {start limit : Nat} {ts : List Token} {p : Parts}
    (h : Listed inner kind start ts p) (along : Along limit start ts) :
    start ≤ p.stop ∧ Along limit p.stop p.rest := by
  induction h with
  | @last start ts c d rest read closing =>
    obtain ⟨order,behind,_⟩ := readAlong runs read along
    exact ⟨Nat.le_trans order (extent d),behind⟩
  | @more start ts c d rest p read between shorter next ih =>
    obtain ⟨order,behind,_⟩ := readAlong runs read along
    obtain ⟨order',behind'⟩ := ih behind
    exact ⟨Nat.le_trans order (Nat.le_trans (extent d) order'),behind'⟩

theorem partsRefused (runs : Runs inner) (refuses : Refuses s inner) {opening : Token} {start : Nat}
    {ts : List Token} (h : parts s inner kind opening start ts = .error failure)
    (along : Along s.stop start ts) (fits : opening.start ≤ s.stop) :
    Refusal s (HasOversized s ts) failure := by
  fun_induction parts s inner kind opening start ts with
  | case1 start ts other read => cases h; exact refuses _ _ _ _ along read
  | case2 => exact atRefused h fits
  | case3 => contradiction
  | case4 start ts c d rest read between shorter other next ih =>
    cases h
    obtain ⟨_,behind,suffix⟩ := readAlong runs read along
    exact refusalWider (ih next behind) fun long => oversizedSuffix long suffix
  | case5 => contradiction
  | case6 start ts c d rest read between longer => exact absurd (readShorter runs read) longer

theorem callRefused {opening : Token} {ts : List Token} {long : Prop}
    (h : call s opening ts = .error failure) (along : Along s.stop opening.stop ts) :
    Refusal s long failure := by
  unfold call at h
  split at h
  next => exact atRefused h (alongLimit along)
  next t ts =>
    split at h
    next =>
      split at h
      next => contradiction
      next o rest =>
        split at h
        next =>
          obtain ⟨order,behind⟩ := along.2
          have fits : o.start ≤ s.stop := Nat.le_trans (extent o) (alongLimit behind)
          rcases bindError.mp h with h | ⟨args,split,h⟩
          · exact argumentsRefused h fits
          rcases bindError.mp h with h | ⟨written,_,h⟩
          · obtain ⟨a,member,h⟩ := mapErrorMember h
            exact writtenRefused h ((splitSpread (argumentsExact.mp split) behind).1.inside a member)
          · contradiction
        next => contradiction
    next => exact onRefused h (alongLimit along.2)

theorem callPartsRefused (runs : Runs inner) (refuses : Refuses s inner) {opening : Token} {c : Call}
    {a : Nat} (h : callParts s inner kind opening c = .error failure) (along : Along s.stop a c.rest)
    (fits : opening.start ≤ s.stop) : Refusal s (HasOversized s c.rest) failure := by
  unfold callParts at h
  split at h
  next => exact atRefused h fits
  next t rest whole =>
    rw [whole] at along ⊢
    split at h
    next =>
      exact refusalWider (partsRefused runs refuses h along.2 fits) fun long =>
        oversizedSuffix long (List.suffix_cons t rest)
    next => contradiction
    next => exact onRefused h (alongLimit along.2)

theorem followsAlong (runs : Runs inner) {ts : List Token} {p : Parts} {a limit : Nat}
    (h : Follows inner kind ts p) (along : Along limit a ts) : a ≤ p.stop ∧ Along limit p.stop p.rest := by
  cases h with
  | @none t rest closing => exact ⟨Nat.le_trans along.1 (extent t),along.2⟩
  | @some t rest p comma list =>
    obtain ⟨order,behind⟩ := listedAlong runs list along.2
    exact ⟨Nat.le_trans along.1 (Nat.le_trans (extent t) order),behind⟩

end

/-! Types, form by form. -/

def FormRefuses (s : Scope) (kind : Kind) (form : Form) : Prop :=
  ∀ h opening rest failure, h.kind = kind → Along s.stop h.start (opening :: rest) →
    form s h opening rest = .error failure → Refusal s (HasOversized s rest ∨
      ∃ args, arguments s opening rest = .ok args ∧ OversizedIn kind args.items) failure

section
variable {s : Scope} {inner : Scope → Reader} {kind : Kind} {failure : Failure}

theorem openingFits {a : Nat} {opening : Token} {rest : List Token}
    (along : Along s.stop a (opening :: rest)) : opening.start ≤ s.stop :=
  Nat.le_trans (extent opening) (alongLimit along.2)

theorem buildKnown {d : Column.Draft} {c : Column} (h : build d = .error failure)
    (built : Column.ofDraft d = .ok c) : False := by
  rw [buildExact.mpr built] at h
  contradiction

theorem buildOverRefused {d : Column.Draft} {start stop : Nat} {long : Prop}
    (h : buildOver s start stop d = .error failure) (order : start ≤ stop) (fits : stop ≤ s.stop) :
    Refusal s long failure := by
  unfold buildOver at h
  split at h
  next => contradiction
  next => exact overRefused h order fits

theorem ignoredRefuses (bare : kind.shape = .bare) : FormRefuses s kind ignored := by
  intro h opening rest failure same along read
  subst same
  unfold ignored at read
  split at read
  next => exact onRefused read (alongLimit along.2)
  rcases bindError.mp read with read | ⟨args,_,read⟩
  · exact argumentsRefused read (openingFits along)
  rcases bindError.mp read with read | ⟨column,_,read⟩
  · obtain ⟨c,built⟩ := Column.simpleBuilt (d := h.draft s args.close.stop) (Kind.bareSimple bare) rfl
    exact (buildKnown read built).elim
  · contradiction

theorem parameterisedRefuses (literal : kind.shape ≠ .bare ∧ kind.shape ≠ .nested) :
    FormRefuses s kind parameterised := by
  intro h opening rest failure same along read
  subst same
  rcases bindError.mp read with read | ⟨args,split,read⟩
  · exact argumentsRefused read (openingFits along)
  have spread := (splitSpread (argumentsExact.mp split) along.2).1
  dsimp only at read
  split at read
  next enum =>
    rcases bindError.mp read with read | ⟨⟨sized,table⟩,pairs,read⟩
    · exact refusalWider (enumerationRefused enum read spread) fun long => .inr ⟨args,split,long⟩
    rcases bindError.mp read with read | ⟨column,_,read⟩
    · obtain ⟨required,own⟩ := enumerationParticulars enum pairs
      have resolved : sized ≠ .enum := fun same => by
        have none := own.table
        rw [same] at none
        exact none
      obtain ⟨c,built⟩ := Column.draftBuilt
        (d := { h.draft s args.close.stop with kind := sized, enumTable := some table })
        (by rw [required]; decide) resolved (fun _ => rfl) own.precision
      exact (buildKnown read built).elim
    · contradiction
  next other =>
    have plain : h.kind.isEnum = false := by simpa using other
    rcases bindError.mp read with read | ⟨p,found,read⟩
    · exact refusalWider (parametersRefused read spread) fun long => .inr ⟨args,split,long⟩
    rcases bindError.mp read with read | ⟨column,_,read⟩
    · have own := parametersParticulars literal plain found
      have resolved : h.kind ≠ .enum := fun same => by rw [same] at plain; contradiction
      obtain ⟨c,built⟩ := Column.draftBuilt
        (d := { h.draft s args.close.stop with
          precision := p.precision, scale := p.scale, timeZone := p.timeZone })
        literal.2 resolved (fun enum => absurd enum other) own.precision
      exact (buildKnown read built).elim
    · contradiction

theorem wrappedRefuses (runs : Runs (inner s)) (refuses : Refuses s (inner s)) :
    FormRefuses s kind (fun s => wrapped s (inner s)) := by
  intro h opening rest failure same along read
  rcases bindError.mp read with read | ⟨list,found,read⟩
  · exact refusalWider (partsRefused runs refuses read along.2 (openingFits along)) .inl
  obtain ⟨order,behind⟩ := listedAlong runs (listedSound found) along.2
  split at read
  next => contradiction
  next =>
    have start := Nat.le_trans along.1 (extent opening)
    exact overRefused read (Nat.le_trans start order) (alongLimit behind)

theorem composedRefuses (runs : Runs (inner s)) (refuses : Refuses s (inner s)) :
    FormRefuses s kind (fun s => composed s (inner s)) := by
  intro h opening rest failure same along read
  rcases bindError.mp read with read | ⟨list,found,read⟩
  · exact refusalWider (partsRefused runs refuses read along.2 (openingFits along)) .inl
  obtain ⟨order,behind⟩ := listedAlong runs (listedSound found) along.2
  rcases bindError.mp read with read | ⟨column,_,read⟩
  · have start := Nat.le_trans along.1 (extent opening)
    exact buildOverRefused read (Nat.le_trans start order) (alongLimit behind)
  · contradiction

theorem aggregatedRefuses (runs : Runs (inner s)) (refuses : Refuses s (inner s)) :
    FormRefuses s kind (fun s => aggregated s (inner s)) := by
  intro h opening rest failure same along read
  rcases bindError.mp read with read | ⟨c,called,read⟩
  · exact callRefused read along.2
  obtain ⟨used,whole,_⟩ := callsCourse (callsSound called)
  have suffix : c.rest <:+ rest := ⟨used,whole.symm⟩
  have tail := alongSuffix along.2 suffix
  rcases bindError.mp read with read | ⟨list,found,read⟩
  · exact refusalWider (callPartsRefused runs refuses read tail (openingFits along)) fun long =>
      .inl (oversizedSuffix long suffix)
  obtain ⟨order,behind⟩ := followsAlong runs (followsExact.mp found) tail
  rcases bindError.mp read with read | ⟨column,_,read⟩
  · have start := Nat.le_trans along.1 (extent opening)
    exact buildOverRefused read (Nat.le_trans start order) (alongLimit behind)
  · contradiction

theorem formRefuses (runs : Runs (inner s)) (refuses : Refuses s (inner s)) :
    FormRefuses s kind (formOf inner kind) := by
  unfold formOf
  split
  · exact wrappedRefuses runs refuses
  split
  · exact aggregatedRefuses runs refuses
  split
  next bare => exact ignoredRefuses bare
  next => exact composedRefuses runs refuses
  next bare nested => exact parameterisedRefuses ⟨bare,nested⟩

/-! Declarations. -/

variable {name : Text} {start : Nat} {t : Token} {ts : List Token}

theorem typeRefused (runs : Runs (inner s)) (refuses : Refuses s (inner s))
    (h : type s (inner s) name start t ts = .error failure) (along : Along s.stop start (t :: ts)) :
    Refusal s (HasOversized s (t :: ts)) failure := by
  cases known : s.keyword? (t :: ts) with
  | none =>
    unfold type at h
    rw [known] at h
    exact onRefused h (alongLimit along.2)
  | some hit =>
    obtain ⟨words,led⟩ := keywordSound known
    rw [led.whole] at along
    obtain ⟨order,behind⟩ := closesAlong along led.stop
    cases opens : opened? hit.rest with
    | none =>
      rw [typeBare known opens] at h
      unfold bare at h
      split at h
      next => exact overRefused h order (alongLimit behind)
      next simple =>
        have simple : hit.kind.isComposite = false := by simpa using simple
        rcases bindError.mp h with h | ⟨column,_,h⟩
        · obtain ⟨c,built⟩ := Column.simpleBuilt
            (d := Head.draft ⟨name,start,hit.kind,hit.stop⟩ s hit.stop) simple rfl
          exact (buildKnown h built).elim
        · contradiction
    | some pair =>
      obtain ⟨o,rest⟩ := pair
      rw [typeOpened known opens] at h
      obtain ⟨shape,_⟩ := openedExact.mp opens
      rw [shape] at behind
      have suffix : rest <:+ t :: ts := ⟨words ++ [o],by rw [led.whole,shape]; simp⟩
      have refused := formRefuses runs refuses ⟨name,start,hit.kind,hit.stop⟩ o rest failure rfl
        (alongEarlier behind order) h
      refine refusalWider refused fun long => ?_
      rcases long with inner | ⟨args,split,here⟩
      · exact oversizedSuffix inner suffix
      · exact ⟨t :: ts,hit,o,rest,args,List.suffix_rfl,known,opens,split,here⟩

theorem bodyRefused (runs : ∀ s, Runs (inner s)) (refuses : Refuses s (inner s))
    (h : body s (inner s) name start t ts = .error failure) (along : Along s.stop start (t :: ts)) :
    Refusal s (HasOversized s (t :: ts)) failure := by
  rcases bindError.mp h with h | ⟨typed,read,h⟩
  · exact typeRefused (runs s) refuses h along
  rcases bindError.mp h with h | ⟨after,_,h⟩
  · obtain ⟨used,whole,_⟩ := typeCourse runs read
    refine suffixRefused h fun u member => (alongToken along ?_).2
    rw [whole]
    exact List.mem_append_right used member
  · contradiction

theorem declarationRefused (runs : ∀ s, Runs (inner s)) (refuses : Refuses s (inner s)) {names : Bool}
    (h : declaration s (inner s) names start ts = .error failure) (along : Along s.stop start ts) :
    Refusal s (HasOversized s ts) failure := by
  unfold declaration at h
  split at h
  next => exact atRefused h along
  next t ts =>
    split at h
    next => exact atRefused h (alongLimit along)
    split at h
    next =>
      rcases bindError.mp h with h | ⟨n,name,h⟩
      · exact namedRefused h (alongLimit along.2)
      obtain ⟨front,whole⟩ := namesWhole (namesSound name)
      have suffix : n.head :: n.rest <:+ t :: ts := ⟨front,whole.symm⟩
      have inside : Along s.stop n.head.start (n.head :: n.rest) :=
        ⟨Nat.le_refl _,(alongSuffix along suffix).2⟩
      exact refusalWider (bodyRefused runs refuses h inside) fun long => oversizedSuffix long suffix
    next => exact bodyRefused runs refuses h along

/- A scope that ends with its text is never run over. -/
theorem arriveAlong (fits : s.stop ≤ s.text.length) (along : Along s.stop start ts) :
    ∃ first, s.arrive ts = .ok first ∧ Along s.stop first ts := by
  rcases ts with _ | ⟨t,ts⟩
  · exact ⟨s.stop,if_pos fits,Nat.le_refl _⟩
  · exact ⟨t.start,rfl,Nat.le_refl _,along.2⟩

theorem nestedReaderRefuses (fits : s.stop ≤ s.text.length) (level : Nat) :
    Refuses s (nestedReader s level) := by
  induction level with
  | zero =>
    intro names start ts failure along h
    exact atRefused h (alongLimit along)
  | succ level ih =>
    intro names start ts failure along h
    obtain ⟨first,here,inside⟩ := arriveAlong fits along
    unfold nestedReader at h
    rw [here] at h
    exact declarationRefused (nestedReaderRuns level) ih h inside

theorem outermostRefused (fits : s.stop ≤ s.text.length) {names : Bool}
    (h : outermost s names start ts = .error failure) (along : Along s.stop start ts) :
    Refusal s (HasOversized s ts) failure :=
  declarationRefused (nestedReaderRuns s.maxDepth) (nestedReaderRefuses fits s.maxDepth) h along

end
end ColumnDecl.Declaration
