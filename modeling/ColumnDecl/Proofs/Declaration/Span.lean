import ColumnDecl.Proofs.Declaration.Embedded
import ColumnDecl.Proofs.Declaration.Trim
import ColumnDecl.Proofs.Declaration.TypeRefusal

/-! Where type texts stand. Each column read from a text has a place in it, from the start of a token
to the stop of another, and in this place those of its nested columns, one behind the other. -/
namespace ColumnDecl
open Token

/-- A stretch of a text, from `start` up to, not including, `stop`. -/
structure Span where
  start : Nat
  stop : Nat
  deriving DecidableEq, Repr

namespace Span

def Before (p q : Span) : Prop := p.stop ≤ q.start

def Inside (p q : Span) : Prop := q.start < p.start ∧ p.stop < q.stop

/-- Places one behind the other between two offsets. -/
structure Row (a b : Nat) (ps : List Span) : Prop where
  fits : a ≤ b
  bounds : ∀ p ∈ ps, a ≤ p.start ∧ p.stop ≤ b
  ordered : ps.Pairwise Before

theorem rowCons {a b : Nat} {p : Span} {ps : List Span} (order : a ≤ p.start)
    (some : p.start < p.stop) (behind : Row p.stop b ps) : Row a b (p :: ps) where
  fits := Nat.le_trans order (Nat.le_trans (Nat.le_of_lt some) behind.fits)
  bounds := by
    intro q hq
    rcases List.mem_cons.mp hq with rfl | hq
    · exact ⟨order,behind.fits⟩
    · have := behind.bounds q hq
      omega
  ordered := .cons (fun q hq => (behind.bounds q hq).1) behind.ordered

theorem rowEarlier {a b c : Nat} {ps : List Span} (h : Row a b ps) (earlier : c ≤ a) :
    Row c b ps where
  fits := Nat.le_trans earlier h.fits
  bounds := by
    intro p hp
    have := h.bounds p hp
    omega
  ordered := h.ordered

end Span

/-- A type text that stands at a place. -/
structure Written (text : Text) (ts : List Token) (p : Span) (c : Column) : Prop where
  some : p.start < p.stop
  verbatim : text.slice p.start p.stop = c.typeText
  begins : ∃ t ∈ ts, t.start = p.start
  ends : ∃ t ∈ ts, t.stop = p.stop
  tight : c.typeText.Tight

/-- A column at a place, and the spans of all columns nested in it. -/
inductive Stands (text : Text) (ts : List Token) : Span → Column → Prop where
  | intro {p c spans} (written : Written text ts p c)
      (nested : List.Forall₂ (Stands text ts) spans c.nested)
      (inside : ∀ q ∈ spans, q.Inside p) (ordered : spans.Pairwise Span.Before) :
      Stands text ts p c

theorem standsWritten {text : Text} {ts : List Token} {p : Span} {c : Column}
    (h : Stands text ts p c) : Written text ts p c := by
  cases h
  assumption

namespace Declaration

/-- There is a row of spans for these columns, closed by a parenthesis that ends at `stop`. -/
def Fills (text : Text) (all : List Token) (start stop : Nat) (columns : List Column) : Prop :=
  ∃ spans, List.Forall₂ (Stands text all) spans columns ∧ ∃ z ∈ all, z.tag = .closing ∧
    z.stop = stop ∧ Span.Row start z.start spans

/- A reader that spans what it reads, in front of the tokens it leaves. -/
def Placed (s : Scope) (all : List Token) (inner : Reader) : Prop :=
  ∀ names start ts c rest a, inner names start ts = .ok (c,rest) → ts <:+ all →
    Along s.text.length a ts →
      ∃ p, Stands s.text all p c ∧ a ≤ p.start ∧ Along s.text.length p.stop rest

theorem splitClosing {limit start : Nat} {ts : List Token} {args : Arguments}
    (h : Split start ts args) (along : Along limit start ts) :
    args.close ∈ ts ∧ args.close.tag = .closing ∧ start ≤ args.close.start := by
  induction h with
  | @last start ts a d rest here closing =>
    obtain ⟨rfl,_,_⟩ := cutEnded here
    exact ⟨by simp,closing,(alongBehind along).1⟩
  | @more start ts a d rest args here inner next ih =>
    obtain ⟨rfl,_,_⟩ := cutEnded here
    obtain ⟨order,behind⟩ := alongBehind along
    obtain ⟨member,closing,later⟩ := ih behind
    exact ⟨List.mem_append_right _ (List.mem_cons_of_mem d member),closing,
      Nat.le_trans order (Nat.le_trans (extent d) later)⟩

section
variable {s : Scope} {all : List Token}

theorem fillsNone {ts : List Token} {args : Arguments} {start : Nat} {columns : List Column}
    (split : Split start ts args) (along : Along s.text.length start ts) (suffix : ts <:+ all)
    (none : columns = []) : Fills s.text all start args.close.stop columns := by
  obtain ⟨member,closing,fits⟩ := splitClosing split along
  exact ⟨[],none ▸ .nil,args.close,suffix.subset member,closing,rfl,fits,nofun,.nil⟩

theorem fillsEarlier {a b stop : Nat} {columns : List Column} (h : Fills s.text all a stop columns)
    (earlier : b ≤ a) : Fills s.text all b stop columns := by
  obtain ⟨spans,stand,z,member,closing,same,row⟩ := h
  exact ⟨spans,stand,z,member,closing,same,Span.rowEarlier row earlier⟩

/-! Lists of nested declarations. -/

section
variable {inner : Reader} {kind : Kind} {p : Parts}

theorem listedPlaced (runs : Runs inner) (placed : Placed s all inner) {start : Nat}
    {ts : List Token} (h : Listed inner kind start ts p) (suffix : ts <:+ all)
    (along : Along s.text.length start ts) : Fills s.text all start p.stop p.columns := by
  induction h with
  | @last start ts c d rest read closing =>
    obtain ⟨q,stands,order,behind⟩ := placed _ _ _ _ _ _ read suffix along
    obtain ⟨used,rfl,_⟩ := runs _ _ _ _ _ read
    refine ⟨[q],.cons stands .nil,d,suffix.subset (by simp),closing,rfl,?_⟩
    exact Span.rowCons order (standsWritten stands).some ⟨behind.1,nofun,.nil⟩
  | @more start ts c d rest p read between shorter next ih =>
    obtain ⟨q,stands,order,behind⟩ := placed _ _ _ _ _ _ read suffix along
    obtain ⟨_,_,inside⟩ := readAlong runs read along
    obtain ⟨spans,stand,z,member,closing,same,row⟩ := ih (inside.trans suffix) behind.2
    have apart : q.stop ≤ d.stop := Nat.le_trans behind.1 (extent d)
    exact ⟨q :: spans,.cons stands stand,z,member,closing,same,
      Span.rowCons order (standsWritten stands).some (Span.rowEarlier row apart)⟩

theorem followsPlaced (runs : Runs inner) (placed : Placed s all inner) {a : Nat} {ts : List Token}
    (h : Follows inner kind ts p) (suffix : ts <:+ all) (along : Along s.text.length a ts) :
    Fills s.text all a p.stop p.columns := by
  cases h with
  | @none t rest closing =>
    exact ⟨[],.nil,t,suffix.subset List.mem_cons_self,closing,rfl,along.1,nofun,.nil⟩
  | @some t rest p comma list =>
    have inside : rest <:+ all := (List.suffix_cons t rest).trans suffix
    exact fillsEarlier (listedPlaced runs placed list inside along.2)
      (Nat.le_trans along.1 (extent t))

end

/-! Types, form by form. -/

/- What a form nests stands between its two parentheses. -/
def FormPlaced (s : Scope) (all : List Token) (form : Form) : Prop :=
  ∀ h opening rest r, form s h opening rest = .ok r → rest <:+ all →
    Along s.text.length opening.stop rest →
      Fills s.text all opening.stop r.stop r.column.nested

section
variable {inner : Scope → Reader}

theorem ignoredPlaced : FormPlaced s all ignored := by
  intro h opening rest r read suffix along
  unfold ignored at read
  split at read
  next => contradiction
  next =>
    obtain ⟨args,split,read⟩ := bindOk.mp read
    obtain ⟨column,made,read⟩ := bindOk.mp read
    cases read
    exact fillsNone (argumentsExact.mp split) along suffix (Column.draftNested (buildExact.mp made))

theorem parameterisedPlaced : FormPlaced s all parameterised := by
  intro h opening rest r read suffix along
  obtain ⟨args,split,read⟩ := bindOk.mp read
  dsimp only at read
  split at read
  next =>
    obtain ⟨_,_,read⟩ := bindOk.mp read
    obtain ⟨column,made,read⟩ := bindOk.mp read
    cases read
    exact fillsNone (argumentsExact.mp split) along suffix (Column.draftNested (buildExact.mp made))
  next =>
    obtain ⟨_,_,read⟩ := bindOk.mp read
    obtain ⟨column,made,read⟩ := bindOk.mp read
    cases read
    exact fillsNone (argumentsExact.mp split) along suffix (Column.draftNested (buildExact.mp made))

variable (runs : Runs (inner s)) (placed : Placed s all (inner s))
include runs placed

/- The one column that was wrapped is no longer there; those nested in it keep their spans. -/
theorem wrappedPlaced : FormPlaced s all fun s => wrapped s (inner s) := by
  intro h opening rest r read suffix along
  obtain ⟨list,found,read⟩ := bindOk.mp read
  obtain ⟨spans,stand,z,member,closing,same,row⟩ :=
    listedPlaced runs placed (listedSound found) suffix along
  dsimp only at read
  split at read
  next c one =>
    cases read
    rw [one] at stand
    obtain ⟨p,_,stands,none,rfl⟩ := List.forall₂_cons_right_iff.mp stand
    cases none
    obtain ⟨fits,later⟩ := row.bounds p List.mem_cons_self
    cases stands with
    | @intro _ _ spans written nested inside ordered =>
      refine ⟨spans,nested,z,member,closing,same,row.fits,fun q hq => ?_,ordered⟩
      have := inside q hq
      exact ⟨Nat.le_trans fits (Nat.le_of_lt this.1),Nat.le_trans (Nat.le_of_lt this.2) later⟩
  next => contradiction

theorem composedPlaced : FormPlaced s all fun s => composed s (inner s) := by
  intro h opening rest r read suffix along
  obtain ⟨list,found,read⟩ := bindOk.mp read
  obtain ⟨column,made,read⟩ := bindOk.mp read
  cases read
  dsimp only
  rw [Column.draftNested (buildOverExact.mp made)]
  exact listedPlaced runs placed (listedSound found) suffix along

theorem aggregatedPlaced : FormPlaced s all fun s => aggregated s (inner s) := by
  intro h opening rest r read suffix along
  obtain ⟨c,called,read⟩ := bindOk.mp read
  obtain ⟨list,found,read⟩ := bindOk.mp read
  obtain ⟨column,made,read⟩ := bindOk.mp read
  cases read
  dsimp only
  rw [Column.draftNested (buildOverExact.mp made)]
  obtain ⟨used,whole,_⟩ := callsCarried (callsSound called)
  have inside : c.rest <:+ rest := ⟨used,whole.symm⟩
  exact followsPlaced runs placed (followsExact.mp found) (inside.trans suffix)
    (alongSuffix along inside)

theorem formPlaced (kind : Kind) : FormPlaced s all (formOf inner kind) := by
  unfold formOf
  split
  · exact wrappedPlaced runs placed
  split
  · exact aggregatedPlaced runs placed
  split
  · exact ignoredPlaced
  · exact composedPlaced runs placed
  · exact parameterisedPlaced

end

/-! Declarations. -/

/- A word or a closing parenthesis that ends at this offset. -/
def Ends (all : List Token) (stop : Nat) : Prop := ∃ y ∈ all, y.Bounding ∧ y.stop = stop

/-- Places for these columns strictly between two offsets. -/
def Encloses (text : Text) (all : List Token) (p : Span) (columns : List Column) : Prop :=
  ∃ spans, List.Forall₂ (Stands text all) spans columns ∧ (∀ q ∈ spans, q.Inside p) ∧
    spans.Pairwise Span.Before

theorem closesBeyond {limit a stop : Nat} {t : Token} {core rest : List Token}
    (along : Along limit a (t :: (core ++ rest))) (closes : Closes (t :: core) stop) :
    t.stop ≤ stop := by
  rcases core with _ | ⟨u,core⟩
  · exact Nat.le_of_eq (Option.some.inj closes)
  · have closes : Closes (u :: core) stop := by simpa [Closes] using closes
    exact (closesAlong along.2 closes).1

theorem modifiersPlaced {nullable last : Bool} {stop final : Nat} {mods rest : List Token}
    (h : Modifiers nullable stop mods last final) (ends : Ends all stop)
    (suffix : mods ++ rest <:+ all) (along : Along s.text.length stop (mods ++ rest)) :
    stop ≤ final ∧ Ends all final ∧ Along s.text.length final rest := by
  induction h with
  | none => exact ⟨Nat.le_refl _,ends,along⟩
  | @null nullable stop t ts last final here _ ih =>
    have behind := (List.suffix_cons t (ts ++ rest)).trans suffix
    obtain ⟨later,done⟩ :=
      ih ⟨t,suffix.subset List.mem_cons_self,.inl (modifierWord here),rfl⟩ behind along.2
    exact ⟨Nat.le_trans along.1 (Nat.le_trans (extent t) later),done⟩
  | @notNull nullable stop t u ts last final here next _ ih =>
    have second := (List.suffix_cons t (u :: ts ++ rest)).trans suffix
    have behind := (List.suffix_cons u (ts ++ rest)).trans second
    obtain ⟨later,done⟩ :=
      ih ⟨u,second.subset List.mem_cons_self,.inl (modifierWord next),rfl⟩ behind along.2.2
    have first := Nat.le_trans along.1 (extent t)
    exact ⟨Nat.le_trans first (Nat.le_trans along.2.1 (Nat.le_trans (extent u) later)),done⟩

section
variable {inner : Scope → Reader} {name : Text} {t : Token} {ts rest : List Token} {c : Column}
variable (lexed : Lexes 0 s.text all) (carries : Carries inner inner) (runs : Runs (inner s))
  (placed : Placed s all (inner s))
include lexed carries runs placed

theorem typePlaced {a : Nat} {r : Typed} (read : type s (inner s) name t.start t ts = .ok r)
    (suffix : t :: ts <:+ all) (along : Along s.text.length a (t :: ts)) :
    Encloses s.text all ⟨t.start,r.stop⟩ r.column.nested ∧ Ends all r.stop ∧ t.stop ≤ r.stop ∧
      Along s.text.length r.stop r.rest := by
  obtain ⟨_,used,whole,closes,_⟩ := typeCarried carries read
  have bounds := lexesBounds lexed
  have first : t.start < t.stop := (bounds t (suffix.subset List.mem_cons_self)).2.1
  have extents : t.stop ≤ r.stop ∧ Along s.text.length r.stop r.rest := by
    rcases used with _ | ⟨u,used⟩
    · contradiction
    rw [List.cons_append,List.cons.injEq] at whole
    obtain ⟨rfl,rfl⟩ := whole
    have tokens : Along s.text.length a (t :: used ++ r.rest) := along
    exact ⟨closesBeyond along closes,(closesAlong tokens closes).2⟩
  obtain ⟨hit,known,⟨_,read⟩ | ⟨o,rest,opens,read⟩⟩ := typeSound read
  · obtain ⟨words,led⟩ := keywordSound known
    obtain ⟨_,column,made,same⟩ := bareExact.mp read
    subst same
    refine ⟨⟨[],?_,nofun,.nil⟩,?_,extents⟩
    · dsimp only
      rw [Column.draftNested made]
      exact .nil
    · obtain ⟨front,y,shape,stop⟩ := closesLast led.stop
      have member : y ∈ words := by rw [shape]; simp
      refine ⟨y,suffix.subset ?_,.inl (led.words y member),stop⟩
      rw [led.whole]
      exact List.mem_append_left _ member
  · obtain ⟨words,led⟩ := keywordSound known
    obtain ⟨behind,_⟩ := openedExact.mp opens
    have whole' : t :: ts = words ++ o :: rest := by rw [led.whole,behind]
    have inside : o :: rest <:+ t :: ts := ⟨words,whole'.symm⟩
    have tail : Along s.text.length t.start (t :: ts) := ⟨Nat.le_refl _,along.2⟩
    have opening := alongSuffix tail inside
    have behind' := (List.suffix_cons o rest).trans (inside.trans suffix)
    obtain ⟨spans,stand,z,member,closing,same,row⟩ :=
      formPlaced runs placed _ _ _ _ _ read behind' opening.2
    refine ⟨⟨spans,stand,fun q hq => ?_,row.ordered⟩,⟨z,member,.inr closing,same⟩,extents⟩
    have here := (bounds o (suffix.subset (inside.subset List.mem_cons_self))).2.1
    have last := (bounds z member).2.1
    have := row.bounds q hq
    constructor
    · exact Nat.lt_of_le_of_lt opening.1 (Nat.lt_of_lt_of_le here this.1)
    · exact Nat.lt_of_le_of_lt this.2 (same ▸ last)

theorem bodyPlaced {a : Nat} (read : body s (inner s) name t.start t ts = .ok (c,rest))
    (suffix : t :: ts <:+ all) (along : Along s.text.length a (t :: ts)) :
    ∃ p, Stands s.text all p c ∧ a ≤ p.start ∧ Along s.text.length p.stop rest := by
  have word := bodyWord read
  obtain ⟨typed,after,mods,clause,typedRead,done,same⟩ := bodyExact.mp read
  cases same
  obtain ⟨⟨spans,stand,inside,ordered⟩,ends,some,behind⟩ :=
    typePlaced lexed carries runs placed typedRead suffix along
  obtain ⟨_,used,whole,_⟩ := typeCarried carries typedRead
  have tail : mods ++ (clause ++ after.rest) <:+ all := by
    refine List.IsSuffix.trans ⟨used,?_⟩ suffix
    rw [whole,done.whole,List.append_assoc]
  rw [done.whole,List.append_assoc] at behind
  obtain ⟨later,⟨y,last,right,stop⟩,behind⟩ := modifiersPlaced done.modifiers ends tail behind
  have first := suffix.subset List.mem_cons_self
  have order : t.start < y.stop := by
    have := (lexesBounds lexed t first).2.1
    omega
  have tight := sliceTight lexed first last (.inl word) right order
  rw [stop] at order tight
  refine ⟨⟨t.start,after.stop⟩,.intro ⟨order,rfl,⟨t,first,rfl⟩,⟨y,last,stop⟩,tight⟩ stand ?_ ordered,
    along.1,alongSuffix behind (List.suffix_append clause after.rest)⟩
  intro q hq
  exact ⟨(inside q hq).1,Nat.lt_of_lt_of_le (inside q hq).2 later⟩

theorem declarationPlaced {a : Nat} {names : Bool}
    (read : declaration s (inner s) names t.start (t :: ts) = .ok (c,rest)) (suffix : t :: ts <:+ all)
    (along : Along s.text.length a (t :: ts)) :
    ∃ p, Stands s.text all p c ∧ a ≤ p.start ∧ Along s.text.length p.stop rest := by
  obtain ⟨_,n,begins,read⟩ := declarationExact.mp read
  obtain ⟨front,whole⟩ := beginsWhole begins
  have inside : n.head :: n.rest <:+ t :: ts := ⟨front,whole.symm⟩
  exact bodyPlaced lexed carries runs placed read (inside.trans suffix) (alongSuffix along inside)

end

theorem nestedReaderPlaced (lexed : Lexes 0 s.text all) (level : Nat) :
    Placed s all (nestedReader s level) := by
  induction level with
  | zero => intro names start ts c rest a h; contradiction
  | succ level ih =>
    intro names start ts c rest a h suffix along
    obtain ⟨below,t,tail,same,rfl,read⟩ := nestedReaderExact.mp h
    cases same
    exact declarationPlaced lexed (nestedReaderCarries (Nat.le_refl level))
      (nestedReaderRuns level s) ih read suffix along

theorem outermostPlaced (lexed : Lexes 0 s.text all) {names : Bool} {t : Token}
    {ts rest : List Token} {c : Column} {a : Nat}
    (read : outermost s names t.start (t :: ts) = .ok (c,rest)) (suffix : t :: ts <:+ all)
    (along : Along s.text.length a (t :: ts)) :
    ∃ p, Stands s.text all p c ∧ a ≤ p.start ∧ Along s.text.length p.stop rest :=
  declarationPlaced lexed (nestedReaderCarries (Nat.le_refl s.maxDepth))
    (nestedReaderRuns s.maxDepth s) (nestedReaderPlaced lexed s.maxDepth) read suffix along

end
end Declaration
end ColumnDecl
