import ColumnDecl.Proofs.Applied
import ColumnDecl.Proofs.Containers
import ColumnDecl.Proofs.Declaration.Signature
import ColumnDecl.Proofs.Reparse
import ColumnDecl.Proofs.WellFormed

/-! Signatures are normal forms. The signature in a column was made of the tokens of a call; unless the
name of the function was quoted there, an aggregate type of this signature has the same one again. -/
namespace ColumnDecl

namespace Declaration
open Token

/-- The name of the function that an aggregate type applies, in front of the tokens of the type or of
wrapping types around it. -/
inductive Applies (s : Scope) : List Token → Token → Prop where
  | own {ts hit o f rest} (known : s.keyword? ts = some hit) (aggregate : hit.kind.isAggregate = true)
      (opens : opened? hit.rest = some (o,f :: rest)) : Applies s ts f
  | wrapped {ts hit o f rest} (known : s.keyword? ts = some hit) (wraps : hit.kind.isWrapper = true)
      (opens : opened? hit.rest = some (o,rest)) (inside : Applies s rest f) : Applies s ts f

theorem aggregateUnwrapped {kind : Kind} (aggregate : kind.isAggregate = true) :
    kind.isWrapper = false := by
  revert aggregate
  cases kind <;> decide

theorem appliesUnique {s : Scope} {ts : List Token} {f g : Token} (h : Applies s ts f)
    (h' : Applies s ts g) : f = g := by
  induction h with
  | own known aggregate opens =>
    cases h' with
    | own known' _ opens' =>
      cases known.symm.trans known'
      cases opens.symm.trans opens'
      rfl
    | wrapped known' wraps' =>
      cases known.symm.trans known'
      rw [aggregateUnwrapped aggregate] at wraps'
      contradiction
  | wrapped known wraps opens inside ih =>
    cases h' with
    | own known' aggregate' =>
      cases known.symm.trans known'
      rw [aggregateUnwrapped aggregate'] at wraps
      contradiction
    | wrapped known' _ opens' inside' =>
      cases known.symm.trans known'
      cases opens.symm.trans opens'
      exact ih inside'

/-- A signature and a function come from a call in these tokens, behind the keyword of an aggregate type. -/
structure Signed (s : Scope) (ts : List Token) (signature : Text) (aggregate : Option Aggregate)
    (f : Token) (rest : List Token) (c : Call) : Prop where
  applies : Applies s ts f
  suffix : f :: rest <:+ ts
  calls : Calls s (f :: rest) c
  signature : c.signature = signature
  aggregate : aggregate = Aggregate.resolve? c.function

def Signs (inner : Scope → Reader) : Prop :=
  ∀ s start ts c rest signature, inner s false start ts = .ok (c,rest) →
    c.signature = some signature → ∃ f rest call, Signed s ts signature c.aggregate f rest call

section
variable {inner : Scope → Reader} {s : Scope} {kind : Kind} {ts : List Token} {r : Typed}

theorem draftSigned {d : Column.Draft} {c : Column} (made : Column.ofDraft d = .ok c) :
    c.signature = d.signature ∧ c.aggregate = d.aggregate := by
  obtain ⟨_,_,_,rfl⟩ := Column.ofDraftExact.mp made
  exact ⟨rfl,rfl⟩

def Unsigned (form : Form) : Prop :=
  ∀ s h opening ts r, form s h opening ts = .ok r → r.column.signature = none

theorem ignoredUnsigned : Unsigned ignored := by
  intro s h opening ts r read
  unfold ignored at read
  split at read
  next => contradiction
  next =>
    obtain ⟨args,_,read⟩ := bindOk.mp read
    obtain ⟨column,made,read⟩ := bindOk.mp read
    cases read
    exact (draftSigned (buildExact.mp made)).1

theorem composedUnsigned : Unsigned fun s => composed s (inner s) := by
  intro s h opening ts r read
  obtain ⟨list,_,read⟩ := bindOk.mp read
  obtain ⟨column,made,read⟩ := bindOk.mp read
  cases read
  exact (draftSigned (buildOverExact.mp made)).1

theorem parameterisedUnsigned : Unsigned parameterised := by
  intro s h opening ts r read
  obtain ⟨args,_,read⟩ := bindOk.mp read
  dsimp only at read
  split at read
  all_goals
    obtain ⟨_,_,read⟩ := bindOk.mp read
    obtain ⟨column,made,read⟩ := bindOk.mp read
    cases read
    exact (draftSigned (buildExact.mp made)).1

theorem formUnsigned (plain : ¬kind.isWrapper = true) (other : ¬kind.isAggregate = true) :
    Unsigned (formOf inner kind) := by
  unfold formOf
  rw [if_neg plain,if_neg other]
  split
  · exact ignoredUnsigned
  · exact composedUnsigned
  · exact parameterisedUnsigned

theorem soleListed {inner : Reader} {start : Nat} {p : Parts} {c : Column}
    (list : Listed inner kind start ts p) (one : p.columns = [c]) :
    ∃ rest, inner kind.namesItsParts start ts = .ok (c,rest) := by
  cases list with
  | last read =>
    cases one
    exact ⟨_,read⟩
  | more read _ _ next =>
    obtain ⟨_,none⟩ := List.cons.inj one
    cases next with
    | last | more => contradiction

theorem wrapperNameless (wraps : kind.isWrapper = true) : kind.namesItsParts = false := by
  revert wraps
  cases kind <;> decide

variable {name : Text} {start : Nat} {t : Token} {signature : Text}

theorem typeSigned (signs : Signs inner) (read : type s (inner s) name start t ts = .ok r)
    (signed : r.column.signature = some signature) :
    ∃ f rest c, Signed s (t :: ts) signature r.column.aggregate f rest c := by
  obtain ⟨hit,known,⟨_,plain⟩ | ⟨o,us,opens,form⟩⟩ := typeSound read
  · obtain ⟨_,c,made,rfl⟩ := bareExact.mp plain
    rw [(draftSigned made).1] at signed
    contradiction
  obtain ⟨words,led⟩ := keywordSound known
  obtain ⟨behind,_⟩ := openedExact.mp opens
  have suffix : us <:+ t :: ts := ⟨words ++ [o],by rw [led.whole,behind]; simp⟩
  by_cases wraps : hit.kind.isWrapper = true
  · rw [formOf,if_pos wraps] at form
    obtain ⟨list,found,form⟩ := bindOk.mp form
    dsimp only at form
    split at form
    next c one =>
      cases form
      obtain ⟨rest,inside⟩ := soleListed (listedSound found) one
      rw [wrapperNameless wraps] at inside
      obtain ⟨f,rest,call,deep⟩ := signs _ _ _ _ _ _ inside signed
      exact ⟨f,rest,call,.wrapped known wraps opens deep.applies,deep.suffix.trans suffix,deep.calls,
        deep.signature,deep.aggregate⟩
    next => contradiction
  by_cases aggregate : hit.kind.isAggregate = true
  · rw [formOf,if_neg wraps,if_pos aggregate] at form
    obtain ⟨c,called,form⟩ := bindOk.mp form
    obtain ⟨list,_,form⟩ := bindOk.mp form
    obtain ⟨column,made,form⟩ := bindOk.mp form
    cases form
    obtain ⟨signature',aggregate'⟩ := draftSigned (buildOverExact.mp made)
    have calls := callsSound called
    obtain ⟨f,rest,rfl⟩ : ∃ f rest, us = f :: rest := by
      cases calls with
      | plain | applied => exact ⟨_,_,rfl⟩
    exact ⟨f,rest,c,.own known aggregate opens,suffix,calls,
      Option.some.inj (signature'.symm.trans signed),aggregate'⟩
  · rw [formUnsigned wraps aggregate _ _ _ _ _ form] at signed
    contradiction

theorem declarationSigned (signs : Signs inner) {c : Column} {rest : List Token}
    (read : declaration s (inner s) false t.start (t :: ts) = .ok (c,rest))
    (signed : c.signature = some signature) :
    ∃ f rest call, Signed s (t :: ts) signature c.aggregate f rest call := by
  obtain ⟨_,_,begins,inside⟩ := declarationExact.mp read
  cases begins
  obtain ⟨typed,after,_,_,typedRead,_,same⟩ := bodyExact.mp inside
  cases same
  exact typeSigned signs typedRead signed

end

theorem nestedReaderSigns (level : Nat) : Signs fun s => nestedReader s level := by
  induction level with
  | zero => intro s start ts c rest signature read; contradiction
  | succ level ih =>
    intro s start ts c rest signature read signed
    obtain ⟨below,t,tail,same,rfl,read⟩ := nestedReaderExact.mp read
    cases same
    exact declarationSigned ih read signed

end Declaration

namespace Dialect
open Token Declaration

variable {d : Dialect}

theorem columnSigned {name text : Text} {x : Column} (read : d.columnOf name text = .ok x)
    (aggregate : x.kind.isAggregate = true) : ∃ ts signature f rest c, Lexes 0 text ts ∧
      x.signature = some signature ∧
      Signed (d.scope text text.length) ts signature x.aggregate f rest c := by
  obtain ⟨t,tail,column,lexed,outer,rfl⟩ := columnOfExact.mp read
  have formed := outermostSound outer column (.self column)
  have some : column.signature.isSome = true := formed.own.signature.trans aggregate
  obtain ⟨signature,signed⟩ := Option.isSome_iff_exists.mp some
  obtain ⟨f,rest,c,origin⟩ := declarationSigned (nestedReaderSigns d.maxDepth) outer signed
  exact ⟨t :: tail,signature,f,rest,c,lexed,signed,origin⟩

theorem signatureApplied (builtin : d.keywords = Keywords.builtin) {signature : Text} {us : List Token}
    {c : Call} (called : ∀ s more, Ended more → Calls s (us ++ more) ⟨c.function,signature,more⟩)
    (lexed : Lexes (Kind.aggregateFunction.name.toList.length + 1) signature us) :
    ∃ x, d.columnOf [] (applied .aggregateFunction signature) = .ok x ∧ x.kind = .aggregateFunction ∧
      x.signature = some signature ∧ x.aggregate = Aggregate.resolve? c.function ∧ x.nested = [] := by
  let text := applied .aggregateFunction signature
  let s := d.scope text text.length
  let z : Token := ⟨.closing,[')'],Kind.aggregateFunction.name.toList.length + 1 + signature.length⟩
  have ended : Ended [z] := rfl
  have form : formOf inner .aggregateFunction = fun s => aggregated s (inner s) := rfl
  have follows : Follows (inner s) .aggregateFunction [z] ⟨[],z.stop,[]⟩ := .none rfl
  obtain ⟨draft,⟨signed,aggregate⟩,builds⟩ :=
    aggregatedBuilds (s := s) form (called s [z] ended) follows
  have closed := lexesJoined lexed (lexesBreak rfl rfl rfl (.done _)) (u := [')']) rfl
  have fault : draft.fault? = none := by
    refine (Column.faultExact ?_ ?_).mpr ⟨?_,?_⟩
    all_goals rw [builds.kind]
    · rfl
    · rfl
    · trivial
    · exact nofun
  obtain ⟨x,read,kind,nested,signed',aggregate'⟩ :=
    buildsAccepted builtin (calledLexes closed) builds fault
  exact ⟨x,read,kind,signed'.trans signed,aggregate'.trans aggregate,nested⟩

/-- A column that is read from a text, or is nested in one that is. -/
inductive Yields (d : Dialect) (x : Column) : Prop where
  | parsed {text cs c} (read : d.parse text = .ok cs) (member : c ∈ cs) (inside : x.Within c)
  | typed {name text c} (read : d.columnOf name text = .ok c) (inside : x.Within c)

theorem yieldsAgain {x : Column} (h : d.Yields x) : d.columnOf x.name x.typeText = .ok x := by
  cases h with
  | parsed read member inside => exact parsedWithin read member inside
  | typed read inside => exact typedWithin read inside

/-- An aggregate type of this signature keeps it, and no blank stands in it outside of quotes. -/
structure Normal (d : Dialect) (signature : Text) (aggregate : Option Aggregate) : Prop where
  again : ∃ c, d.columnOf [] (applied .aggregateFunction signature) = .ok c ∧
    c.kind = .aggregateFunction ∧ c.signature = some signature ∧ c.aggregate = aggregate ∧ c.nested = []
  packed : ∃ us, Token.stream signature = .ok us ∧ us.flatMap Token.raw = signature ∧
    ∀ u ∈ us, u.Quoted ∨ ∀ c ∈ u.raw, Text.isBlank c = false

theorem signatureNormal (builtin : d.keywords = Keywords.builtin) {x : Column} (yields : d.Yields x)
    (aggregate : x.kind.isAggregate = true) :
    ∃ ts signature, Token.stream x.typeText = .ok ts ∧ x.signature = some signature ∧
      (∃ f, Applies (d.scope x.typeText x.typeText.length) ts f) ∧
      ∀ f, Applies (d.scope x.typeText x.typeText.length) ts f → f.tag = .identifier →
        d.Normal signature x.aggregate := by
  obtain ⟨ts,signature,f,rest,c,lexed,signed,origin⟩ := columnSigned (yieldsAgain yields) aggregate
  refine ⟨ts,signature,streamExact.mpr lexed,signed,⟨f,origin.applies⟩,fun g applies word => ?_⟩
  cases appliesUnique origin.applies applies
  have spelled : ∀ x ∈ f :: rest, x.Spelled := fun x hx => lexesTags lexed (origin.suffix.subset hx)
  have again := calledAgain origin.calls spelled word
  rw [origin.signature] at again
  constructor
  · obtain ⟨us,lexed',_,called⟩ := again (Kind.aggregateFunction.name.toList.length + 1)
    rw [origin.aggregate]
    exact signatureApplied builtin called lexed'
  · obtain ⟨us,lexed',raws,_⟩ := again 0
    exact ⟨us,streamExact.mpr lexed',raws,fun u hu => madeVisible (spelledMade (lexesTags lexed' hu))⟩

/- The two strings become one, and the sign becomes part of the number. -/
theorem signatureNormalGlued :
    let d : Dialect := ⟨Keywords.builtin,1⟩
    let text : Text := "Nullable(AggregateFunction(f( 'a' 'b' , [- 2] )))".toList
    let signature : Text := "f('a''b',[-2])".toList
    ∃ x, d.columnOf [] text = .ok x ∧ x.signature = some signature ∧ d.Yields x ∧
      x.kind.isAggregate = true ∧ d.Normal signature x.aggregate := by
  intro d text signature
  have builtin : d.keywords = Keywords.builtin := by simp only [d]
  have tabled : d = ⟨Keywords.table,1⟩ := congrArg (Dialect.mk · 1) Keywords.builtinTable
  let outer : Token := ⟨.identifier,"Nullable".toList,0⟩
  let o : Token := ⟨.opening,['('],8⟩
  let own : Token := ⟨.identifier,"AggregateFunction".toList,9⟩
  let o' : Token := ⟨.opening,['('],26⟩
  let f : Token := ⟨.identifier,['f'],27⟩
  have seen : (d.columnOf [] text).toOption.map (fun x => (x.kind,x.typeText,x.signature)) =
      some (.aggregateFunction,text,some signature) := by
    rw [tabled]
    decide +kernel
  have lexed : (Token.stream text).toOption.map (List.take 5) = some [outer,o,own,o',f] := by
    decide +kernel
  cases read : d.columnOf [] text with
  | error failure =>
    rw [read] at seen
    cases seen
  | ok x =>
    rw [read] at seen
    obtain ⟨kind,typeText,signed⟩ : x.kind = .aggregateFunction ∧ x.typeText = text ∧
        x.signature = some signature := by simpa using Option.some.inj seen
    have yields : d.Yields x := .typed read (.self x)
    have aggregate : x.kind.isAggregate = true := by rw [kind]; rfl
    obtain ⟨ts,other,stream,signed',_,normal⟩ := signatureNormal builtin yields aggregate
    cases signed.symm.trans signed'
    rw [typeText] at stream normal
    rw [stream] at lexed
    have front := Option.some.inj lexed
    rw [← List.take_append_drop 5 ts,front] at normal
    refine ⟨x,rfl,signed,yields,aggregate,normal f ?_ rfl⟩
    have opens : o.tag ≠ .identifier ∧ o'.tag ≠ .identifier := by decide
    have spelled : Text.upper outer.value = Text.upper Kind.nullable.name.toList ∧
        Text.upper own.value = Text.upper Kind.aggregateFunction.name.toList := by decide +kernel
    exact .wrapped (Keywords.wordKnown builtin rfl spelled.1 opens.1) rfl rfl
      (.own (Keywords.wordKnown builtin rfl spelled.2 opens.2) rfl rfl)

end Dialect
end ColumnDecl
