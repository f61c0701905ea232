import ColumnDecl.Proofs.EnumTable
import ColumnDecl.Proofs.Integer
import ColumnDecl.Proofs.Token.Along
import ColumnDecl.Proofs.Declaration.Literal

/-! What a reader refuses, and where. Every fault lies within the scope, and apart from faults there is
only a number that is too long to be written where a smaller one belongs. -/
namespace ColumnDecl

theorem Cause.categoryKnown (c : Cause) : c.category ≠ .declaration := by
  intro h
  cases c <;> contradiction

namespace Fault

/-- The fault is no later than the limit, and one with an end has a start before it. -/
def Placed (limit : Nat) (f : Fault) : Prop :=
  match f.start, f.stop with
  | some a, some b => a ≤ b ∧ b ≤ limit
  | some a, none => a ≤ limit
  | none, some _ => False
  | none, none => True

end Fault

namespace Declaration
open Token

/-- A fault in the scope, of a category of its own, or a number too long to be written where `long`
says so. -/
inductive Refusal (s : Scope) (long : Prop) : Failure → Prop where
  | fault {f : Fault} (category : f.category ≠ .declaration) (text : f.text = some s.text)
      (placed : f.Placed s.stop) : Refusal s long (.rejected f)
  | number (here : long) : Refusal s long .unwritableNumber

section
variable {s : Scope} {long wider : Prop} {failure : Failure} {α : Type}

theorem refusalWider (h : Refusal s long failure) (wide : long → wider) : Refusal s wider failure := by
  cases h with
  | fault category text placed => exact .fault category text placed
  | number here => exact .number (wide here)

theorem atRefused {cause : Cause} {a : Nat}
    (h : (s.faultAt cause a : Except Failure α) = .error failure) (fits : a ≤ s.stop) :
    Refusal s long failure := by
  cases h
  exact .fault cause.categoryKnown rfl fits

theorem overRefused {cause : Cause} {a b : Nat}
    (h : (s.faultOver cause a b : Except Failure α) = .error failure) (order : a ≤ b)
    (fits : b ≤ s.stop) : Refusal s long failure := by
  cases h
  exact .fault cause.categoryKnown rfl ⟨order,fits⟩

theorem onRefused {cause : Cause} {t : Token}
    (h : (s.faultOn cause t : Except Failure α) = .error failure) (fits : t.stop ≤ s.stop) :
    Refusal s long failure :=
  overRefused h (extent t) fits

end

theorem bindError {ε α β : Type} {x : Except ε α} {f : α → Except ε β} {e : ε} :
    x >>= f = .error e ↔ x = .error e ∨ ∃ a, x = .ok a ∧ f a = .error e := by
  cases x with
  | error other =>
    constructor
    · intro h; cases h; exact .inl rfl
    · intro h
      rcases h with h | ⟨_,found,_⟩
      · cases h; rfl
      · contradiction
  | ok a =>
    constructor
    · intro h; exact .inr ⟨a,rfl,h⟩
    · intro h
      rcases h with h | ⟨_,found,h⟩
      · contradiction
      · cases found; exact h

/-! Arguments. -/

structure Argument.Inside (s : Scope) (a : Argument) : Prop where
  order : a.start ≤ a.stop
  fits : a.stop ≤ s.stop
  tokens : ∀ t ∈ a.tokens, t.stop ≤ s.stop

/-- Arguments of one list: there is a first and a last one, and they lie in this order. -/
structure Spread (s : Scope) (items : List Argument) : Prop where
  inside : ∀ a ∈ items, a.Inside s
  span : ∃ first last, items.head? = some first ∧ items.getLast? = some last ∧ first.start ≤ last.stop

theorem splitSpread {s : Scope} {start : Nat} {ts : List Token} {args : Arguments}
    (h : Split start ts args) (along : Along s.stop start ts) :
    Spread s args.items ∧ start ≤ args.close.stop ∧ Along s.stop args.close.stop args.rest ∧
      ∀ a ∈ args.items.head?, a.start = start := by
  have item : ∀ {start : Nat} {ts a rest : List Token} {d : Token}, Along s.stop start ts →
      cut ts = (a,d :: rest) → start ≤ d.start ∧ d.stop ≤ s.stop ∧ Along s.stop d.stop rest ∧
        Argument.Inside s ⟨start,d.start,a⟩ := by
    intro start ts a rest d along here
    obtain ⟨rfl,_,_⟩ := cutEnded here
    obtain ⟨order,behind⟩ := alongBehind along
    have last := alongLimit behind
    refine ⟨order,last,behind,order,Nat.le_trans (extent d) last,fun t member => ?_⟩
    exact (alongToken along (List.mem_append_left _ member)).2
  induction h with
  | @last start ts a d rest here closing =>
    obtain ⟨order,fits,behind,inside⟩ := item along here
    refine ⟨⟨?_,_,_,rfl,rfl,order⟩,Nat.le_trans order (extent d),behind,?_⟩
    · intro a member
      cases List.mem_singleton.mp member
      exact inside
    · intro a member
      cases member
      rfl
  | @more start ts a d rest args here inner next ih =>
    obtain ⟨order,fits,behind,inside⟩ := item along here
    obtain ⟨⟨others,first,last,head,tail,span⟩,close,rest,starts⟩ := ih behind
    have before : start ≤ first.start := by
      rw [starts first head]
      exact Nat.le_trans order (extent d)
    have ends : (⟨start,d.start,a⟩ :: args.items).getLast? = some last := by
      rw [List.getLast?_cons,tail]
      rfl
    refine ⟨⟨?_,_,last,rfl,ends,Nat.le_trans before span⟩,?_,rest,?_⟩
    · intro a member
      rcases List.mem_cons.mp member with rfl | member
      · exact inside
      · exact others a member
    · exact Nat.le_trans order (Nat.le_trans (extent d) close)
    · intro a member
      cases member
      rfl

theorem argumentsRefused {s : Scope} {opening : Token} {ts : List Token} {failure : Failure}
    {long : Prop} (h : arguments s opening ts = .error failure) (fits : opening.start ≤ s.stop) :
    Refusal s long failure := by
  unfold arguments at h
  split at h
  next => contradiction
  next => exact atRefused h fits

/-! Numbers in their places. -/

/-- The numbers that a type of this kind takes as its argument number `i`. -/
inductive Place : Kind → Nat → Int → Int → Prop where
  | length : Place .fixedString 0 1 (2 ^ 31 - 1)
  | precision : Place .decimal 0 1 76
  | scale {p : Int} (precision : 1 ≤ p ∧ p ≤ 76) : Place .decimal 1 0 p
  | sized {kind} {p : Nat} (sized : kind.sizedPrecision? = some p) : Place kind 0 0 p
  | subsecond : Place .dateTime64 0 0 9
  | small (i : Nat) : Place .enum8 i (-128) 127
  | wide {kind} (i : Nat) (wide : kind = .enum ∨ kind = .enum16) : Place kind i (-32768) 32767

/-- A number too long to be written, in hexadecimal, and out of range. -/
def Oversized (low high : Int) (a : Argument) : Prop :=
  ∃ t v, t ∈ a.tokens ∧ t.tag = .number ∧ Integer.Hexadecimal t.raw ∧
    Integer.read? t.raw = some v ∧ Integer.isWritable v = false ∧ ¬(low ≤ v ∧ v ≤ high)

def OversizedIn (kind : Kind) (items : List Argument) : Prop :=
  ∃ i a low high, items[i]? = some a ∧ Place kind i low high ∧ Oversized low high a

section
variable {s : Scope} {failure : Failure} {a : Argument}

theorem singleRefused {what : String} {long : Prop} (h : single s what a = .error failure)
    (inside : a.Inside s) : Refusal s long failure := by
  unfold single at h
  split at h
  next => contradiction
  next => exact overRefused h inside.order inside.fits

theorem integerRefused {what : String} {o : Option Token} {long : Prop}
    (h : integer s what o = .error failure) (inside : ∀ t ∈ o, t.stop ≤ s.stop) :
    Refusal s long failure := by
  unfold integer at h
  split at h
  next => cases h; exact .fault (Cause.categoryKnown _) rfl trivial
  next t =>
    split at h
    next => contradiction
    next => exact onRefused h (inside t rfl)

theorem boundedRefused {what : String} {low high : Int} (h : bounded s what low high a = .error failure)
    (inside : a.Inside s) : Refusal s (Oversized low high a) failure := by
  rcases bindError.mp h with h | ⟨t,one,h⟩
  · exact singleRefused h inside
  have member : t ∈ a.tokens := by rw [singleExact.mp one]; exact List.mem_singleton_self t
  rcases bindError.mp h with h | ⟨v,read,h⟩
  · refine integerRefused h fun u same => ?_
    cases same
    exact inside.tokens t member
  obtain ⟨_,same,number,value⟩ := integerExact.mp read
  cases same
  split at h
  next => contradiction
  next outside =>
    split at h
    next => exact overRefused h inside.order inside.fits
    next long =>
      cases h
      have long : Integer.isWritable v = false := by simpa using long
      exact .number
        ⟨t,v,member,number,Integer.unwritableHexadecimal value long,value,long,outside⟩

theorem quotedStringRefused {start : Nat} {o : Option Token} {long : Prop}
    (h : quotedString s start o = .error failure) (fits : start ≤ s.stop)
    (inside : ∀ t ∈ o, t.stop ≤ s.stop) : Refusal s long failure := by
  unfold quotedString at h
  split at h
  next => exact atRefused h fits
  next t =>
    split at h
    next => contradiction
    next => exact onRefused h (inside t rfl)

theorem timeZoneRefused {long : Prop} (h : timeZone s a = .error failure) (inside : a.Inside s) :
    Refusal s long failure := by
  rcases bindError.mp h with h | ⟨t,one,h⟩
  · exact singleRefused h inside
  have fits : t.stop ≤ s.stop :=
    inside.tokens t (by rw [singleExact.mp one]; exact List.mem_singleton_self t)
  refine quotedStringRefused h (Nat.le_trans (extent t) fits) fun u same => ?_
  cases same
  exact fits

theorem writtenRefused {long : Prop} (h : a.written s = .error failure) (inside : a.Inside s) :
    Refusal s long failure := by
  unfold Argument.written at h
  split at h
  next => exact atRefused h (Nat.le_trans inside.order inside.fits)
  next => contradiction

theorem constantRefused {long : Prop} (h : constant s a = .error failure) (inside : a.Inside s) :
    Refusal s long failure := by
  have head : ∀ t ∈ a.tokens.head?, t.stop ≤ s.stop :=
    fun t first => inside.tokens t (List.mem_of_mem_head? first)
  rcases bindError.mp h with h | ⟨label,_,h⟩
  · exact quotedStringRefused h (Nat.le_trans inside.order inside.fits) head
  split at h
  next => exact overRefused h inside.order inside.fits
  next e rest behind =>
    have tokens : ∀ t ∈ rest, t.stop ≤ s.stop := fun t member =>
      inside.tokens t (List.mem_of_mem_tail (behind ▸ List.mem_cons_of_mem e member))
    split at h
    next =>
      rcases bindError.mp h with h | ⟨code,_,h⟩
      · exact integerRefused h fun t first => tokens t (List.mem_of_mem_head? first)
      split at h
      next => contradiction
      next t _ more =>
        exact onRefused h (tokens t (List.mem_of_mem_tail (more ▸ List.mem_cons_self)))
    next => exact overRefused h inside.order inside.fits

end

/-! Lists of them. -/

section
variable {s : Scope} {failure : Failure} {items : List Argument}

theorem overAllRefused {cause : Cause} {α : Type} {long : Prop}
    (h : (faultOverAll s cause items : Except Failure α) = .error failure) (spread : Spread s items) :
    Refusal s long failure := by
  obtain ⟨first,last,head,tail,span⟩ := spread.span
  unfold faultOverAll at h
  rw [head,tail] at h
  exact overRefused h span (spread.inside last (List.mem_of_getLast? tail)).fits

theorem firstRefused {kind : Kind} {what : String} {low high : Int} {a : Argument}
    {more : List Argument} (place : Place kind 0 low high)
    (h : bounded s what low high a = .error failure) (spread : Spread s (a :: more)) :
    Refusal s (OversizedIn kind (a :: more)) failure :=
  refusalWider (boundedRefused h (spread.inside a List.mem_cons_self)) fun long =>
    ⟨0,a,low,high,rfl,place,long⟩

theorem decimalRefused (h : decimal s items = .error failure) (spread : Spread s items) :
    Refusal s (OversizedIn .decimal items) failure := by
  unfold decimal at h
  split at h
  next p =>
    rcases bindError.mp h with h | ⟨precision,_,h⟩
    · exact firstRefused .precision h spread
    · contradiction
  next p q =>
    rcases bindError.mp h with h | ⟨precision,read,h⟩
    · exact firstRefused .precision h spread
    rcases bindError.mp h with h | ⟨scale,_,h⟩
    · obtain ⟨_,_,_,_,inside⟩ := boundedExact.mp read
      refine refusalWider (boundedRefused h (spread.inside q (by simp))) fun long => ?_
      exact ⟨1,q,0,precision,rfl,.scale inside,long⟩
    · contradiction
  next => exact overAllRefused h spread

theorem fractionalTimeRefused (h : fractionalTime s items = .error failure) (spread : Spread s items) :
    Refusal s (OversizedIn .dateTime64 items) failure := by
  unfold fractionalTime at h
  split at h
  next p =>
    rcases bindError.mp h with h | ⟨scale,_,h⟩
    · exact firstRefused .subsecond h spread
    · contradiction
  next p z =>
    rcases bindError.mp h with h | ⟨scale,_,h⟩
    · exact firstRefused .subsecond h spread
    rcases bindError.mp h with h | ⟨zone,_,h⟩
    · exact timeZoneRefused h (spread.inside z (by simp))
    · contradiction
  next => exact overAllRefused h spread

theorem parametersRefused {kind : Kind} (h : parameters s kind items = .error failure)
    (spread : Spread s items) : Refusal s (OversizedIn kind items) failure := by
  unfold parameters at h
  split at h
  next => exact decimalRefused h spread
  next => exact fractionalTimeRefused h spread
  next =>
    split at h
    next a =>
      split at h
      next fixed =>
        rcases bindError.mp h with h | ⟨length,_,h⟩
        · rw [fixed]
          exact firstRefused .length h spread
        · contradiction
      next =>
        split at h
        next precision sized =>
          rcases bindError.mp h with h | ⟨scale,_,h⟩
          · exact firstRefused (.sized sized) h spread
          · contradiction
        next =>
          rcases bindError.mp h with h | ⟨zone,_,h⟩
          · exact timeZoneRefused h (spread.inside a List.mem_cons_self)
          · contradiction
    next => exact overAllRefused h spread

theorem mapErrorMember {ε α β : Type} {f : α → Except ε β} {xs : List α} {e : ε}
    (h : xs.mapM f = .error e) : ∃ x ∈ xs, f x = .error e := by
  induction xs with
  | nil => contradiction
  | cons x xs ih =>
    rw [List.mapM_cons] at h
    rcases bindError.mp h with first | ⟨z,_,h⟩
    · exact ⟨x,List.mem_cons_self,first⟩
    rcases bindError.mp h with rest | ⟨zs,_,h⟩
    · obtain ⟨w,inside,found⟩ := ih rest
      exact ⟨w,List.mem_cons_of_mem x inside,found⟩
    · contradiction

theorem codePlace {kind : Kind} (enum : kind.isEnum = true) (pairs : List (Text × Int)) (i : Nat) :
    ∃ bits, (enumKind kind pairs).enumBits? = some bits ∧ 0 < bits ∧
      ∀ p ∈ pairs, EnumTable.fits bits p.2 = false →
        ∃ low high, Place kind i low high ∧ ¬(low ≤ p.2 ∧ p.2 ≤ high) := by
  have outside : ∀ {bits : Nat} {code : Int}, EnumTable.fits bits code = false →
      ¬(-(2 : Int) ^ (bits - 1) ≤ code ∧ code ≤ 2 ^ (bits - 1) - 1) := by
    intro bits code h inside
    have fits : EnumTable.fits bits code = true := by
      unfold EnumTable.fits
      exact Bool.and_eq_true_iff.mpr
        ⟨decide_eq_true inside.1,decide_eq_true (Int.lt_of_le_sub_one inside.2)⟩
    rw [h] at fits
    contradiction
  unfold enumKind
  split
  next unsized =>
    subst unsized
    split
    next all =>
      refine ⟨8,rfl,by decide,fun p member h => ?_⟩
      rw [List.all_eq_true.mp all p member] at h
      contradiction
    next => exact ⟨16,rfl,by decide,fun p _ h => ⟨_,_,.wide i (.inl rfl),outside h⟩⟩
  next sized =>
    cases kind with
    | enum8 => exact ⟨8,rfl,by decide,fun p _ h => ⟨_,_,.small i,outside h⟩⟩
    | enum16 => exact ⟨16,rfl,by decide,fun p _ h => ⟨_,_,.wide i (.inr rfl),outside h⟩⟩
    | enum => exact absurd rfl sized
    | _ => contradiction

theorem enumerationRefused {kind : Kind} (enum : kind.isEnum = true)
    (h : enumeration s kind items = .error failure) (spread : Spread s items) :
    Refusal s (OversizedIn kind items) failure := by
  rcases bindError.mp h with h | ⟨pairs,read,h⟩
  · obtain ⟨a,member,h⟩ := mapErrorMember h
    exact constantRefused h (spread.inside a member)
  obtain ⟨bits,known,width,_⟩ := codePlace enum pairs 0
  dsimp only at h
  rw [known] at h
  split at h
  next => contradiction
  next fault _ => exact overAllRefused h spread
  next other made =>
    cases h
    rcases EnumTable.ofWidthRefused made width with ⟨fault,rfl⟩ | ⟨rfl,p,member,unfit,long⟩
    · exact absurd rfl (other fault)
    obtain ⟨a,inside,found⟩ := mateOf (mapOkExact.mp read) member
    obtain ⟨i,_,position⟩ := List.getElem_of_mem inside
    obtain ⟨_,_,n,tokens,_,_,_,number,value⟩ := constantExact.mp found
    obtain ⟨bits',known',_,placed⟩ := codePlace enum pairs i
    cases known.symm.trans known'
    obtain ⟨low,high,place,outside⟩ := placed p member unfit
    refine .number ⟨i,a,low,high,List.getElem?_eq_some_iff.mpr ⟨_,position⟩,place,n,p.2,?_,number,
      Integer.unwritableHexadecimal value long,value,long,outside⟩
    rw [tokens]
    simp

end
end Declaration
end ColumnDecl
