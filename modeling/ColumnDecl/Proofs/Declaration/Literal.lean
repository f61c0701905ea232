import ColumnDecl.Proofs.Declaration.Suffix
import ColumnDecl.Declaration.Literal

/-! Literal parameters by their tokens. What a parameter stands for is said by the tags and the
source of its tokens alone, so a list of parameters in a passage means the same in both scopes. -/
namespace ColumnDecl

theorem bindOk {ε α β : Type} {x : Except ε α} {f : α → Except ε β} {b : β} :
    x >>= f = .ok b ↔ ∃ a, x = .ok a ∧ f a = .ok b := by
  cases x with
  | error e => exact ⟨nofun,fun ⟨_,h,_⟩ => nomatch h⟩
  | ok a => exact ⟨fun h => ⟨a,rfl,h⟩,fun ⟨_,same,h⟩ => by cases same; exact h⟩

namespace Declaration
open Token

inductive Split : Nat → List Token → Arguments → Prop where
  | last {start ts a d rest} (here : cut ts = (a, d :: rest)) (closing : d.tag = .closing) :
      Split start ts ⟨[⟨start,d.start,a⟩],d,rest⟩
  | more {start ts a d rest args} (here : cut ts = (a, d :: rest)) (inner : d.tag ≠ .closing)
      (next : Split d.stop rest args) :
      Split start ts ⟨⟨start,d.start,a⟩ :: args.items,args.close,args.rest⟩

theorem splitSound {start : Nat} {ts : List Token} {args : Arguments}
    (h : arguments? start ts = some args) : Split start ts args := by
  fun_induction arguments? start ts generalizing args with
  | case1 => contradiction
  | case2 start ts d rest found item =>
    rename_i closing
    cases h
    exact .last (Prod.ext rfl found) closing
  | case3 start ts d rest found item inner =>
    rename_i ih
    obtain ⟨more,next,rfl⟩ := Option.map_eq_some_iff.mp h
    exact .more (Prod.ext rfl found) inner (ih next)

theorem splitComplete {start : Nat} {ts : List Token} {args : Arguments}
    (h : Split start ts args) : arguments? start ts = some args := by
  induction h with
  | @last start ts a d rest here closing =>
    unfold arguments?
    split
    next none => rw [here] at none; contradiction
    next found =>
      rw [here] at found
      cases found
      rw [if_pos closing,here]
  | @more start ts a d rest args here inner next ih =>
    unfold arguments?
    split
    next none => rw [here] at none; contradiction
    next found =>
      rw [here] at found
      cases found
      rw [if_neg inner,ih,here]
      rfl

theorem argumentsExact {s : Scope} {opening : Token} {ts : List Token} {args : Arguments} :
    arguments s opening ts = .ok args ↔ Split opening.stop ts args := by
  unfold arguments
  cases found : arguments? opening.stop ts with
  | none =>
    constructor
    · intro h; contradiction
    · intro h; rw [splitComplete h] at found; contradiction
  | some other =>
    constructor
    · intro h; cases h; exact splitSound found
    · intro h; rw [splitComplete h] at found; cases found; rfl

/- By induction on the tokens that are left, argument by argument. -/
theorem splitNested {ts : List Token} (h : nested ts = true) {z : Token} (closing : z.tag = .closing)
    (start : Nat) : ∃ items, Split start (ts ++ [z]) ⟨items,z,[]⟩ := by
  generalize size : ts.length = n
  induction n using Nat.strongRecOn generalizing ts start with
  | ind n ih =>
    have ended : Ended [z] := by simp [Ended,isDelimiter,closing]
    have same : List.Forall₂ Alike (cut ts).1 (cut ts).1 := List.forall₂_same.mpr fun _ _ => ⟨rfl,rfl⟩
    have parts := cutRejoins ts
    cases here : cut ts with
    | mk a rest =>
      rw [here] at parts same
      cases rest with
      | nil =>
        rw [List.append_nil] at parts
        subst parts
        have level : depth 0 a = 0 := depthNested h
        exact ⟨_,.last (cutAgain here same ended (.inr level) rfl) closing⟩
      | cons d rest =>
        obtain ⟨-,delimits,level⟩ := cutEnded here
        obtain ⟨comma,more⟩ := @cutNested [] _ _ _ _ h here
        have shorter : rest.length < n := by
          have total := congrArg List.length parts
          rw [List.length_append,List.length_cons] at total
          omega
        obtain ⟨items,next⟩ := ih _ shorter more d.stop rfl
        have again : cut (ts ++ [z]) = (a,d :: (rest ++ [z])) := by
          refine cutAgain here same delimits (.inr (level (List.cons_ne_nil d rest))) ?_
          rw [← parts]
          simp
        exact ⟨_,.more again (by rw [comma]; decide) next⟩

/-! What each parameter is. -/

theorem singleExact {s : Scope} {what : String} {a : Argument} {t : Token} :
    single s what a = .ok t ↔ a.tokens = [t] := by
  unfold single
  split
  next u one => rw [one]; simp
  next other =>
    constructor
    · intro h; contradiction
    · intro h; exact absurd h (other t)

theorem integerExact {s : Scope} {what : String} {o : Option Token} {v : Int} :
    integer s what o = .ok v ↔
      ∃ t, o = some t ∧ t.tag = .number ∧ Integer.read? t.raw = some v := by
  rcases o with _ | t
  · exact ⟨nofun,fun ⟨_,h,_⟩ => nomatch h⟩
  unfold integer
  dsimp only
  by_cases number : t.tag = .number
  · rw [if_pos number]
    cases read : Integer.read? t.raw with
    | none => exact ⟨nofun,fun ⟨u,same,_,h⟩ => by cases same; rw [read] at h; contradiction⟩
    | some w =>
      constructor
      · intro h; cases h; exact ⟨t,rfl,number,read⟩
      · intro h
        obtain ⟨u,same,_,h⟩ := h
        cases same
        rw [read] at h
        cases h
        rfl
  · rw [if_neg number]
    exact ⟨nofun,fun ⟨u,same,h,_⟩ => by cases same; exact absurd h number⟩

theorem boundedExact {s : Scope} {what : String} {low high v : Int} {a : Argument} :
    bounded s what low high a = .ok v ↔
      ∃ t, a.tokens = [t] ∧ t.tag = .number ∧ Integer.read? t.raw = some v ∧
        low ≤ v ∧ v ≤ high := by
  simp only [bounded,bindOk,singleExact,integerExact]
  constructor
  · intro h
    obtain ⟨t,one,w,⟨u,same,number,read⟩,h⟩ := h
    cases same
    split at h
    next inside => cases h; exact ⟨t,one,number,read,inside⟩
    next =>
      split at h
      · exact nomatch h
      · exact nomatch h
  · intro h
    obtain ⟨t,one,number,read,inside⟩ := h
    exact ⟨t,one,v,⟨t,rfl,number,read⟩,if_pos inside⟩

theorem quotedStringExact {s : Scope} {start : Nat} {o : Option Token} {x : Text} :
    quotedString s start o = .ok x ↔ ∃ t, o = some t ∧ t.tag = .string ∧ t.value = x := by
  rcases o with _ | t
  · exact ⟨nofun,fun ⟨_,h,_⟩ => nomatch h⟩
  unfold quotedString
  dsimp only
  by_cases string : t.tag = .string
  · rw [if_pos string]
    constructor
    · intro h; cases h; exact ⟨t,rfl,string,rfl⟩
    · intro h
      obtain ⟨u,same,_,rfl⟩ := h
      cases same
      rfl
  · rw [if_neg string]
    exact ⟨nofun,fun ⟨u,same,h,_⟩ => by cases same; exact absurd h string⟩

theorem timeZoneExact {s : Scope} {a : Argument} {x : Text} :
    timeZone s a = .ok x ↔ ∃ t, a.tokens = [t] ∧ t.tag = .string ∧ t.value = x := by
  simp only [timeZone,bindOk,singleExact,quotedStringExact]
  constructor
  · intro h
    obtain ⟨t,one,u,same,rest⟩ := h
    cases same
    exact ⟨t,one,rest⟩
  · intro h
    obtain ⟨t,one,rest⟩ := h
    exact ⟨t,one,t,rfl,rest⟩

theorem constantExact {s : Scope} {a : Argument} {label : Text} {code : Int} :
    constant s a = .ok (label, code) ↔
      ∃ t e n, a.tokens = [t, e, n] ∧ t.tag = .string ∧ t.value = label ∧ e.tag = .equals ∧
        n.tag = .number ∧ Integer.read? n.raw = some code := by
  simp only [constant,bindOk,quotedStringExact]
  constructor
  · intro h
    obtain ⟨x,⟨t,first,string,rfl⟩,h⟩ := h
    obtain ⟨ts,whole⟩ := List.head?_eq_some_iff.mp first
    rw [whole,List.tail_cons] at h
    split at h
    next => contradiction
    next e rest =>
      split at h
      next equals =>
        obtain ⟨w,read,h⟩ := bindOk.mp h
        obtain ⟨n,second,number,value⟩ := integerExact.mp read
        obtain ⟨us,rfl⟩ := List.head?_eq_some_iff.mp second
        split at h
        next none =>
          cases h
          rw [List.tail_cons] at none
          exact ⟨t,e,n,by rw [whole,none],string,rfl,equals,number,value⟩
        next => contradiction
      next => contradiction
  · intro h
    obtain ⟨t,e,n,whole,string,rfl,equals,number,value⟩ := h
    refine ⟨t.value,⟨t,by rw [whole]; rfl,string,rfl⟩,?_⟩
    rw [whole,List.tail_cons]
    dsimp only
    rw [if_pos equals,bindOk]
    exact ⟨code,integerExact.mpr ⟨n,rfl,number,value⟩,rfl⟩

theorem writtenExact {s : Scope} {a : Argument} {x : Text} :
    a.written s = .ok x ↔ a.tokens ≠ [] ∧ a.tokens.flatMap Token.raw = x := by
  unfold Argument.written
  split
  next none => exact ⟨nofun,fun h => absurd none h.1⟩
  next some =>
    constructor
    · intro h; cases h; exact ⟨some,rfl⟩
    · intro h
      obtain ⟨_,rfl⟩ := h
      rfl

/-! The same arguments elsewhere. -/

def AlikeArgument (a b : Argument) : Prop := List.Forall₂ Alike a.tokens b.tokens

def AlikeArguments : List Argument → List Argument → Prop := List.Forall₂ AlikeArgument

theorem alikeOne {a b : Argument} {t : Token} (same : AlikeArgument a b) (one : a.tokens = [t]) :
    ∃ u, b.tokens = [u] ∧ Alike t u := by
  unfold AlikeArgument at same
  rw [one] at same
  obtain ⟨u,alike,whole⟩ := soleMate same
  exact ⟨u,whole,alike⟩

theorem alikeRaw {ts us : List Token} (h : List.Forall₂ Alike ts us) :
    ts.flatMap Token.raw = us.flatMap Token.raw := by
  induction h with
  | nil => rfl
  | cons head tail ih => rw [List.flatMap_cons,List.flatMap_cons,head.2,ih]

theorem mapOkExact {ε α β : Type} {f : α → Except ε β} {xs : List α} {ys : List β} :
    xs.mapM f = .ok ys ↔ List.Forall₂ (fun x y => f x = .ok y) xs ys := by
  induction xs generalizing ys with
  | nil => simp [pure,Except.pure,eq_comm]
  | cons x xs ih =>
    rw [List.mapM_cons,bindOk,List.forall₂_cons_left_iff]
    constructor
    · intro h
      obtain ⟨y,first,h⟩ := h
      obtain ⟨zs,rest,h⟩ := bindOk.mp h
      cases h
      exact ⟨y,zs,first,ih.mp rest,rfl⟩
    · intro h
      obtain ⟨y,zs,first,rest,rfl⟩ := h
      exact ⟨y,first,bindOk.mpr ⟨zs,ih.mpr rest,rfl⟩⟩

theorem mapOkAlike {α β ε : Type} {R : α → α → Prop} {f g : α → Except ε β}
    (each : ∀ a b, R a b → ∀ v, f a = .ok v → g b = .ok v) {xs ys : List α}
    (same : List.Forall₂ R xs ys) {vs : List β} (h : xs.mapM f = .ok vs) :
    ys.mapM g = .ok vs := by
  induction same generalizing vs with
  | nil => exact h
  | cons head tail ih =>
    rw [List.mapM_cons] at h ⊢
    obtain ⟨v,first,h⟩ := bindOk.mp h
    obtain ⟨ws,rest,h⟩ := bindOk.mp h
    exact bindOk.mpr ⟨v,each _ _ head v first,bindOk.mpr ⟨ws,ih rest,h⟩⟩

section
variable {s s' : Scope} {a b : Argument} {items items' : List Argument}

theorem boundedAlike {what : String} {low high v : Int} (same : AlikeArgument a b)
    (h : bounded s what low high a = .ok v) : bounded s' what low high b = .ok v := by
  obtain ⟨t,one,number,read,inside⟩ := boundedExact.mp h
  obtain ⟨u,other,tag,raw⟩ := alikeOne same one
  exact boundedExact.mpr ⟨u,other,tag ▸ number,raw ▸ read,inside⟩

theorem timeZoneAlike {x : Text} (same : AlikeArgument a b) (h : timeZone s a = .ok x) :
    timeZone s' b = .ok x := by
  obtain ⟨t,one,string,value⟩ := timeZoneExact.mp h
  obtain ⟨u,other,alike⟩ := alikeOne same one
  exact timeZoneExact.mpr ⟨u,other,alike.1 ▸ string,alikeValue alike ▸ value⟩

theorem constantAlike {p : Text × Int} (same : AlikeArgument a b) (h : constant s a = .ok p) :
    constant s' b = .ok p := by
  obtain ⟨t,e,n,whole,string,label,equals,number,read⟩ := constantExact.mp h
  unfold AlikeArgument at same
  rw [whole] at same
  obtain ⟨t',_,first,others,other⟩ := List.forall₂_cons_left_iff.mp same
  obtain ⟨e',_,second,last,rfl⟩ := List.forall₂_cons_left_iff.mp others
  obtain ⟨n',third,rfl⟩ := soleMate last
  exact constantExact.mpr ⟨t',e',n',other,first.1 ▸ string,alikeValue first ▸ label,
    second.1 ▸ equals,third.1 ▸ number,third.2 ▸ read⟩

theorem writtenAlike {x : Text} (same : AlikeArgument a b) (h : a.written s = .ok x) :
    b.written s' = .ok x := by
  obtain ⟨some,whole⟩ := writtenExact.mp h
  refine writtenExact.mpr ⟨fun none => some ?_,alikeRaw same ▸ whole⟩
  unfold AlikeArgument at same
  rw [none] at same
  exact List.forall₂_nil_right_iff.mp same

theorem decimalAlike {p : Parameters} (same : AlikeArguments items items')
    (h : decimal s items = .ok p) : decimal s' items' = .ok p := by
  unfold decimal at h
  split at h
  next a =>
    obtain ⟨b,alike,rfl⟩ := soleMate same
    obtain ⟨precision,first,h⟩ := bindOk.mp h
    exact bindOk.mpr ⟨precision,boundedAlike alike first,h⟩
  next a c =>
    obtain ⟨b,_,alike,others,rfl⟩ := List.forall₂_cons_left_iff.mp same
    obtain ⟨d,alike',rfl⟩ := soleMate others
    obtain ⟨precision,first,h⟩ := bindOk.mp h
    obtain ⟨scale,second,h⟩ := bindOk.mp h
    exact bindOk.mpr ⟨precision,boundedAlike alike first,
      bindOk.mpr ⟨scale,boundedAlike alike' second,h⟩⟩
  next => contradiction

theorem fractionalTimeAlike {p : Parameters} (same : AlikeArguments items items')
    (h : fractionalTime s items = .ok p) : fractionalTime s' items' = .ok p := by
  unfold fractionalTime at h
  split at h
  next a =>
    obtain ⟨b,alike,rfl⟩ := soleMate same
    obtain ⟨scale,first,h⟩ := bindOk.mp h
    exact bindOk.mpr ⟨scale,boundedAlike alike first,h⟩
  next a c =>
    obtain ⟨b,_,alike,others,rfl⟩ := List.forall₂_cons_left_iff.mp same
    obtain ⟨d,alike',rfl⟩ := soleMate others
    obtain ⟨scale,first,h⟩ := bindOk.mp h
    obtain ⟨zone,second,h⟩ := bindOk.mp h
    exact bindOk.mpr ⟨scale,boundedAlike alike first,
      bindOk.mpr ⟨zone,timeZoneAlike alike' second,h⟩⟩
  next => contradiction

theorem parametersAlike {kind : Kind} {p : Parameters} (same : AlikeArguments items items')
    (h : parameters s kind items = .ok p) : parameters s' kind items' = .ok p := by
  unfold parameters at h ⊢
  split at h
  next => exact decimalAlike same h
  next => exact fractionalTimeAlike same h
  next =>
    split at h
    next a =>
      obtain ⟨b,alike,rfl⟩ := soleMate same
      dsimp only
      split at h
      next fixed =>
        obtain ⟨length,first,h⟩ := bindOk.mp h
        rw [if_pos fixed]
        exact bindOk.mpr ⟨length,boundedAlike alike first,h⟩
      next other =>
        rw [if_neg other]
        split at h
        next precision sized =>
          obtain ⟨scale,first,h⟩ := bindOk.mp h
          exact bindOk.mpr ⟨scale,boundedAlike alike first,h⟩
        next sized =>
          obtain ⟨zone,first,h⟩ := bindOk.mp h
          exact bindOk.mpr ⟨zone,timeZoneAlike alike first,h⟩
    next => contradiction

theorem enumerationAlike {kind : Kind} {r : Kind × EnumTable} (same : AlikeArguments items items')
    (h : enumeration s kind items = .ok r) : enumeration s' kind items' = .ok r := by
  obtain ⟨pairs,read,h⟩ := bindOk.mp h
  refine bindOk.mpr ⟨pairs,mapOkAlike (fun _ _ alike _ => constantAlike alike) same read,?_⟩
  dsimp only at h ⊢
  split at h
  next table found => exact h
  next => contradiction
  next => contradiction

end

/- A list of arguments ends at its own closing parenthesis, whatever comes behind. -/
theorem splitCarried {start : Nat} {ts : List Token} {args : Arguments} (h : Split start ts args) :
    ∃ used, ts = used ++ args.rest ∧ Closes used args.close.stop ∧
      ∀ (m : Passage) us, m.Sames used us → ∀ start' more, ∃ items close,
        Split start' (us ++ more) ⟨items,close,more⟩ ∧ Closes us close.stop ∧
        m.At args.close.stop close.stop ∧ AlikeArguments args.items items := by
  induction h with
  | @last start ts a d rest here closing =>
    obtain ⟨whole,ended,level⟩ := cutEnded here
    refine ⟨a ++ [d],by rw [whole]; simp,closesBehind a rfl,?_⟩
    intro m us same start' more
    obtain ⟨b,_,rfl,first,second⟩ := splitAlong same
    obtain ⟨e,mate,rfl⟩ := soleMate second
    have ended' : Ended (e :: more) := endedAlike (Passage.sameAlike mate) ended
    have cutHere := cutAgain here (Passage.samesAlike first) ended' (.inr (level (by simp)))
      rfl
    rw [List.append_assoc]
    exact ⟨_,e,.last cutHere (mate.1 ▸ closing),closesBehind b rfl,Passage.sameStop mate,
      .cons (Passage.samesAlike first) .nil⟩
  | @more start ts a d rest args here inner next ih =>
    obtain ⟨whole,ended,level⟩ := cutEnded here
    obtain ⟨used,split,closes,carry⟩ := ih
    refine ⟨a ++ d :: used,by rw [whole,split]; simp,closesAcross a d closes,?_⟩
    intro m us same start' more
    obtain ⟨b,_,rfl,first,second⟩ := splitAlong same
    obtain ⟨e,v,mate,third,rfl⟩ := List.forall₂_cons_left_iff.mp second
    obtain ⟨items,close,again,closed,position,alike⟩ := carry m v third e.stop more
    have ended' : Ended (e :: (v ++ more)) := endedAlike (Passage.sameAlike mate) ended
    have cutHere := cutAgain here (Passage.samesAlike first) ended' (.inr (level (by simp)))
      rfl
    rw [List.append_assoc]
    exact ⟨_,close,.more cutHere (mate.1 ▸ inner) again,closesAcross b e closed,position,
      .cons (Passage.samesAlike first) alike⟩

end Declaration
end ColumnDecl
