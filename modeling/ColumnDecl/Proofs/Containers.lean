import ColumnDecl.Proofs.Declaration.Fields
import ColumnDecl.Proofs.Declaration.Written

/-! Container types written out around fields. Each takes exactly the numbers of columns it should, and
its columns are those of the fields. -/
namespace ColumnDecl.Dialect
open Token Declaration

def listing (kind : Kind) (items : List Text) : Text := kind.name.toList ++ '(' :: Field.rest items

/-- Read without a name, the text is a column of this kind with these columns nested in it. -/
def Accepts (d : Dialect) (text : Text) (kind : Kind) (nested : List Column) : Prop :=
  ∃ c, d.columnOf [] text = .ok c ∧ c.kind = kind ∧ c.nested = nested

def Refuses (d : Dialect) (text : Text) : Prop :=
  ∃ fault, d.columnOf [] text = .error (.rejected fault) ∧ fault.category = .invalid

def containers : List Kind :=
  [.array,.tuple,.map,.nested,.aggregateFunction,.simpleAggregateFunction]

section
variable {s : Scope} {kind : Kind} {ts : List Token}

/-- What is left of reading a listing is to build a column of these nested ones. -/
structure Builds (s : Scope) (kind : Kind) (ts : List Token) (columns : List Column)
    (draft : Column.Draft) (stop : Nat) : Prop where
  type : listedType s kind ts =
    buildOver s 0 stop draft >>= fun column => .ok ⟨column,stop,[]⟩
  kind : draft.kind = kind
  nested : draft.nested = columns
  fixed : draft.fixedLength = none
  precision : draft.precision = none

theorem composedBuilds {columns : List Column} {stop : Nat}
    (form : formOf inner kind = fun s => composed s (inner s))
    (list : Listed (inner s) kind (openToken kind).stop ts ⟨columns,stop,[]⟩) :
    ∃ draft, Builds s kind ts columns draft stop := by
  let h : Head := ⟨[],0,kind,kind.name.toList.length⟩
  refine ⟨{ h.draft s stop with nested := columns },?_,rfl,rfl,rfl,rfl⟩
  have found : parts s (inner s) kind (openToken kind) (openToken kind).stop ts =
      .ok ⟨columns,stop,[]⟩ := listedComplete list
  rw [listedType,form]
  change composed s (inner s) h (openToken kind) ts = _
  unfold composed
  rw [found]
  rfl

theorem aggregatedBuilds {columns : List Column} {stop : Nat} {c : Call}
    (form : formOf inner kind = fun s => aggregated s (inner s)) (called : Calls s ts c)
    (follows : Follows (inner s) kind c.rest ⟨columns,stop,[]⟩) :
    ∃ draft, (draft.signature = some c.signature ∧ draft.aggregate = Aggregate.resolve? c.function) ∧
      Builds s kind ts columns draft stop := by
  let h : Head := ⟨[],0,kind,kind.name.toList.length⟩
  refine ⟨{ h.draft s stop with
    nested := columns
    aggregate := Aggregate.resolve? c.function
    signature := some c.signature },⟨rfl,rfl⟩,?_,rfl,rfl,rfl,rfl⟩
  have parts : callParts s (inner s) kind (openToken kind) c = .ok ⟨columns,stop,[]⟩ :=
    followsExact.mpr follows
  rw [listedType,form]
  change aggregated s (inner s) h (openToken kind) ts = _
  unfold aggregated
  rw [callsComplete called (openToken kind)]
  change callParts s (inner s) kind (openToken kind) _ >>= _ = _
  rw [parts]
  rfl

end

variable {d : Dialect} {kind : Kind} {text : Text} {ts : List Token} {columns : List Column}
  {draft : Column.Draft} {stop : Nat}

theorem buildsAccepted (builtin : d.keywords = Keywords.builtin)
    (lexed : Lexes 0 text (headToken kind :: openToken kind :: ts))
    (builds : Builds (d.scope text text.length) kind ts columns draft stop)
    (fault : draft.fault? = none) : ∃ c, d.columnOf [] text = .ok c ∧ c.kind = kind ∧
      c.nested = columns ∧ c.signature = draft.signature ∧ c.aggregate = draft.aggregate := by
  obtain ⟨length,made⟩ := Column.draftMade fault builds.fixed builds.precision
  have typed := builds.type
  rw [buildOverExact.mpr made] at typed
  have read := listingOutermost (s := d.scope text text.length) builtin kind ts
  rw [typed] at read
  exact ⟨_,columnOfExact.mpr ⟨_,_,_,lexed,read,rfl⟩,builds.kind,builds.nested,rfl,rfl⟩

theorem buildsRefused (builtin : d.keywords = Keywords.builtin)
    (lexed : Lexes 0 text (headToken kind :: openToken kind :: ts))
    (builds : Builds (d.scope text text.length) kind ts columns draft stop)
    (fault : draft.fault? ≠ none) : d.Refuses text := by
  obtain ⟨cause,found⟩ := Option.ne_none_iff_exists'.mp fault
  have typed := builds.type
  unfold buildOver at typed
  rw [Column.draftRefused found] at typed
  have read := listingOutermost (s := d.scope text text.length) builtin kind ts
  rw [typed] at read
  exact ⟨_,columnOfRefused lexed read,Column.faultCause found⟩

/-! Fields. -/

def deeper (d : Dialect) : Dialect := { d with maxDepth := d.maxDepth + 1 }

theorem containerKind : ∀ kind ∈ containers,
    kind.isWrapper = false ∧ kind.isEnum = false := by
  decide

def Suits (kind : Kind) (columns : List Column) : Prop :=
  Column.Counted kind columns.length ∧ (kind = .nested → ∀ c ∈ columns, c.name ≠ [])

theorem suitsUnnamed (other : kind ≠ .nested) :
    Suits kind columns ↔ Column.Counted kind columns.length := by
  constructor
  · intro suits
    exact suits.1
  · intro counted
    exact ⟨counted,fun same => absurd same other⟩

theorem buildsOutcome (builtin : d.keywords = Keywords.builtin) (member : kind ∈ containers)
    (lexed : Lexes 0 text (headToken kind :: openToken kind :: ts))
    (builds : Builds (d.scope text text.length) kind ts columns draft stop) :
    (Suits kind columns → ∃ c, d.columnOf [] text = .ok c ∧ c.kind = kind ∧ c.nested = columns ∧
      c.signature = draft.signature) ∧ (¬Suits kind columns → d.Refuses text) := by
  obtain ⟨simple,plain⟩ := containerKind kind member
  have exact := Column.faultExact (builds.kind.symm ▸ simple) (builds.kind.symm ▸ plain)
  rw [builds.kind,builds.nested] at exact
  refine ⟨fun suits => ?_,fun other => ?_⟩
  · obtain ⟨c,read,same,nested,signed,_⟩ := buildsAccepted builtin lexed builds (exact.mpr suits)
    exact ⟨c,read,same,nested,signed⟩
  · exact buildsRefused builtin lexed builds fun fine => other (exact.mp fine)

section
variable {fields : List Field} (builtin : d.keywords = Keywords.builtin) (filled : fields ≠ [])
  (fits : ∀ f ∈ fields, f.Fits d)
include builtin filled fits

theorem composedOutcome (member : kind ∈ containers)
    (form : formOf inner kind = fun s => composed s (inner s))
    (allowed : ∀ f ∈ fields, kind.namesItsParts = true ∨ f.name = []) :
    (Suits kind (fields.map Field.column) →
      d.deeper.Accepts (listing kind (fields.map Field.source)) kind (fields.map Field.column)) ∧
    (¬Suits kind (fields.map Field.column) →
      d.deeper.Refuses (listing kind (fields.map Field.source))) := by
  have parts : listing kind (fields.map Field.source) =
      (kind.name.toList ++ ['(']) ++ Field.rest (fields.map Field.source) := by simp [listing]
  have words : d.keywords = d.deeper.keywords := rfl
  have builtin' : d.deeper.keywords = Keywords.builtin := builtin
  obtain ⟨ts,lexed,list⟩ := Field.listed words filled fits allowed parts
  rw [List.length_append] at lexed
  obtain ⟨draft,builds⟩ := composedBuilds form (list (openToken kind).stop)
  obtain ⟨accepted,refused⟩ := buildsOutcome builtin' member (calledLexes lexed) builds
  refine ⟨fun suits => ?_,refused⟩
  obtain ⟨c,read,same,nested,_⟩ := accepted suits
  exact ⟨c,read,same,nested⟩

theorem aggregatedOutcome (kind : Kind) (member : kind ∈ containers)
    (form : formOf inner kind = fun s => aggregated s (inner s))
    (unnamed : ∀ f ∈ fields, f.name = []) {function : Text} {t : Token}
    (word : Token.stream function = .ok [t])
    (name : t.tag = .identifier ∨ t.tag = .quotedIdentifier) :
    (Suits kind (fields.map Field.column) →
      ∃ c, d.deeper.columnOf [] (listing kind (function :: fields.map Field.source)) = .ok c ∧
        c.kind = kind ∧ c.nested = fields.map Field.column ∧ c.signature = some t.value) ∧
    (¬Suits kind (fields.map Field.column) →
      d.deeper.Refuses (listing kind (function :: fields.map Field.source))) := by
  have words : d.keywords = d.deeper.keywords := rfl
  have builtin' : d.deeper.keywords = Keywords.builtin := builtin
  have behind : Field.rest (function :: fields.map Field.source) =
      function ++ ',' :: ' ' :: Field.rest (fields.map Field.source) := by
    rcases fields with _ | ⟨f,fields⟩
    · contradiction
    · exact Field.restCons _ _ _
  have parts : listing kind (function :: fields.map Field.source) =
      (kind.name.toList ++ '(' :: function ++ [',', ' ']) ++ Field.rest (fields.map Field.source) := by
    rw [listing,behind]; simp
  obtain ⟨ts,lexed,list⟩ := Field.listed words filled fits (fun f hf => .inr (unnamed f hf)) parts
  obtain ⟨_,moved,same⟩ := lexesMoved (streamExact.mp word) (kind.name.toList.length + 1)
  obtain ⟨u,mate,rfl⟩ := soleMate same
  let comma : Token := ⟨.comma,[','],kind.name.toList.length + 1 + function.length⟩
  have rest : Lexes (kind.name.toList.length + 1) (Field.rest (function :: fields.map Field.source))
      (u :: comma :: ts) := by
    rw [behind]
    refine lexesJoined moved (lexesBreak rfl rfl rfl (.gap rfl ?_)) rfl
    have position : (kind.name.toList ++ '(' :: function ++ [',', ' ']).length =
        kind.name.toList.length + 1 + function.length + 1 + 1 := by simp; omega
    rwa [position] at lexed
  have value : u.value = t.value := (alikeValue ⟨mate.1,mate.2.1⟩).symm
  have plain : opened? (comma :: ts) = none := rfl
  obtain ⟨draft,⟨signed,_⟩,builds⟩ :=
    aggregatedBuilds form (.plain (mate.1 ▸ name) plain) (.some rfl (list comma.stop))
  have outcome := buildsOutcome builtin' member (calledLexes rest) builds
  rw [signed,value] at outcome
  exact outcome

end

theorem containersCompose {fields : List Field} (builtin : d.keywords = Keywords.builtin)
    (filled : fields ≠ []) (fits : ∀ f ∈ fields, f.Fits d) :
    d.deeper.Accepts (listing .tuple (fields.map Field.source)) .tuple (fields.map Field.column) ∧
    ((∀ f ∈ fields, f.name ≠ []) → d.deeper.Accepts
      (listing .nested (fields.map Field.source)) .nested (fields.map Field.column)) ∧
    ((∃ f ∈ fields, f.name = []) →
      d.deeper.Refuses (listing .nested (fields.map Field.source))) ∧
    ((∀ f ∈ fields, f.name = []) →
      (fields.length = 1 → d.deeper.Accepts
        (listing .array (fields.map Field.source)) .array (fields.map Field.column)) ∧
      (fields.length ≠ 1 → d.deeper.Refuses (listing .array (fields.map Field.source))) ∧
      (fields.length = 2 → ∃ c,
        d.deeper.columnOf [] (listing .map (fields.map Field.source)) = .ok c ∧
        c.kind = .map ∧ c.nested = fields.map Field.column ∧
        c.keyColumn? = (fields.map Field.column)[0]? ∧
        c.valueColumn? = (fields.map Field.column)[1]?) ∧
      (fields.length ≠ 2 → d.deeper.Refuses (listing .map (fields.map Field.source))) ∧
      ∀ function t, Token.stream function = .ok [t] →
        t.tag = .identifier ∨ t.tag = .quotedIdentifier →
        (∃ c, d.deeper.columnOf []
            (listing .aggregateFunction (function :: fields.map Field.source)) = .ok c ∧
          c.kind = .aggregateFunction ∧ c.nested = fields.map Field.column ∧
          c.signature = some t.value) ∧
        (fields.length = 1 → ∃ c, d.deeper.columnOf []
            (listing .simpleAggregateFunction (function :: fields.map Field.source)) = .ok c ∧
          c.kind = .simpleAggregateFunction ∧ c.nested = fields.map Field.column ∧
          c.signature = some t.value) ∧
        (fields.length ≠ 1 → d.deeper.Refuses
          (listing .simpleAggregateFunction (function :: fields.map Field.source)))) := by
  let sources := fields.map Field.source
  let columns := fields.map Field.column
  have size : columns.length = fields.length := List.length_map _
  have composed : ∀ kind ∈ containers, formOf inner kind = (fun s => composed s (inner s)) →
      (∀ f ∈ fields, kind.namesItsParts = true ∨ f.name = []) →
      (Suits kind columns → d.deeper.Accepts (listing kind sources) kind columns) ∧
      (¬Suits kind columns → d.deeper.Refuses (listing kind sources)) :=
    fun kind member form allowed => composedOutcome builtin filled fits member form allowed
  have nameless : ∀ kind, kind ≠ .nested →
      (Suits kind columns ↔ Column.Counted kind fields.length) := by
    intro kind other
    rw [suitsUnnamed other,size]
  have tuple := composed .tuple (by decide) rfl (fun _ _ => .inl rfl)
  have nested := composed .nested (by decide) rfl (fun _ _ => .inl rfl)
  have names := Field.columnNames fits
  have count : fields.length ≠ 0 := fun none => filled (List.length_eq_zero_iff.mp none)
  refine ⟨tuple.1 ((nameless .tuple (by decide)).mpr count),?_,?_,?_⟩
  · intro h
    exact nested.1 ⟨size.symm ▸ count,fun _ => names.mpr h⟩
  · intro ⟨f,hf,empty⟩
    exact nested.2 fun suits => names.mp (suits.2 rfl) f hf empty
  intro unnamed
  have array := composed .array (by decide) rfl (fun f hf => .inr (unnamed f hf))
  have map := composed .map (by decide) rfl (fun f hf => .inr (unnamed f hf))
  rw [nameless .array (by decide)] at array
  rw [nameless .map (by decide)] at map
  refine ⟨array.1,array.2,?_,map.2,?_⟩
  · intro pair
    obtain ⟨c,read,kind,same⟩ := map.1 pair
    refine ⟨c,read,kind,same,?_,?_⟩
    · rw [Column.keyColumn?,if_pos kind,same]
    · rw [Column.valueColumn?,if_pos kind,same]
  · intro function t word name
    have aggregate := aggregatedOutcome builtin filled fits .aggregateFunction (by decide) rfl
      unnamed word name
    have simple := aggregatedOutcome builtin filled fits .simpleAggregateFunction (by decide)
      rfl unnamed word name
    rw [nameless .aggregateFunction (by decide)] at aggregate
    rw [nameless .simpleAggregateFunction (by decide)] at simple
    exact ⟨aggregate.1 trivial,simple.1,simple.2⟩

theorem containersComposePair :
    let d : Dialect := ⟨Keywords.builtin,1⟩
    let x : Column := ⟨[],"Nullable(String)".toList,.string,true,false,false,1,[],none,none,none,none,
      none,none⟩
    let y : Column := ⟨[],"Int8 null".toList,.int8,true,false,true,1,[],none,none,none,none,none,none⟩
    let items := ["Nullable(String) ttl f(1)".toList,"Int8 null".toList]
    d.deeper.Accepts (listing .tuple items) .tuple [x,y] ∧
      d.deeper.Refuses (listing .nested items) ∧ d.deeper.Refuses (listing .array items) ∧
      (∃ c, d.deeper.columnOf [] (listing .map items) = .ok c ∧ c.keyColumn? = some x ∧
        c.valueColumn? = some y) ∧
      (∃ c, d.deeper.columnOf [] (listing .aggregateFunction ("sum".toList :: items)) = .ok c ∧
        c.nested = [x,y] ∧ c.signature = some "sum".toList) ∧
      d.deeper.Refuses (listing .simpleAggregateFunction ("sum".toList :: items)) := by
  intro d x y items
  have tabled : d = ⟨Keywords.table,1⟩ := congrArg (Dialect.mk · 1) Keywords.builtinTable
  obtain ⟨first,second⟩ : d.columnOf [] "Nullable(String) ttl f(1)".toList = .ok x ∧
      d.columnOf [] "Int8 null".toList = .ok y := by
    rw [tabled]
    decide +kernel
  let fields : List Field :=
    [⟨[],"Nullable(String) ttl f(1)".toList,x⟩,⟨[],"Int8 null".toList,y⟩]
  have fits : ∀ f ∈ fields, f.Fits d := by
    intro f hf
    rcases List.mem_cons.mp hf with rfl | hf
    · exact ⟨first,by decide +kernel⟩
    · cases List.mem_singleton.mp hf
      exact ⟨second,by decide +kernel⟩
  have unnamed : ∀ f ∈ fields, f.name = [] := by decide
  have builtin : d.keywords = Keywords.builtin := by simp only [d]
  obtain ⟨tuple,_,nested,rest⟩ := containersCompose builtin (List.cons_ne_nil _ _) fits
  obtain ⟨_,array,map,_,aggregates⟩ := rest unnamed
  obtain ⟨c,read,_,_,key,value⟩ := map rfl
  obtain ⟨⟨a,call,_,inside,signed⟩,_,simple⟩ :=
    aggregates "sum".toList ⟨.identifier,"sum".toList,0⟩ (by decide +kernel) (.inl rfl)
  exact ⟨tuple,nested ⟨_,List.mem_cons_self,rfl⟩,array (by decide),⟨c,read,key,value⟩,
    ⟨a,call,inside,signed⟩,simple (by decide)⟩

end ColumnDecl.Dialect
