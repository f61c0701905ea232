import ColumnDecl.Integer
import Mathlib.Data.List.Forall2
import Mathlib.Data.Nat.Digits.Defs

/-! Integer literals as they are spelled, with the number that each of them is. A decimal literal has no
more digits than can be written, so a number too long for that stands in the text in hexadecimal. -/
namespace ColumnDecl.Integer

/-- Digits of a base, the most significant one first. -/
def Digits (base : Nat) (digit? : Char → Option Nat) (t : Text) (n : Nat) : Prop :=
  ∃ ds, List.Forall₂ (fun c d => digit? c = some d) t ds ∧ n = Nat.ofDigits base ds.reverse

inductive Magnitude : Text → Nat → Prop where
  | decimal {t n} (some : t ≠ []) (short : t.length ≤ maxDigits)
      (digits : Digits 10 Text.digit? t n) : Magnitude t n
  | hexadecimal {x t n} (mark : x = 'x' ∨ x = 'X') (some : t ≠ []) (digits : Digits 16 hexDigit? t n) :
      Magnitude ('0' :: x :: t) n

inductive Spells : Text → Int → Prop where
  | plain {t n} (magnitude : Magnitude t n) : Spells t n
  | positive {t n} (magnitude : Magnitude t n) : Spells ('+' :: t) n
  | negative {t n} (magnitude : Magnitude t n) : Spells ('-' :: t) (-n)

theorem foldExact {base : Nat} {digit? : Char → Option Nat} {t : Text} {value n : Nat} :
    fold base digit? value t = some n ↔
      ∃ ds, List.Forall₂ (fun c d => digit? c = some d) t ds ∧
        n = value * base ^ ds.length + Nat.ofDigits base ds.reverse := by
  induction t generalizing value with
  | nil => simp [fold,eq_comm]
  | cons c t ih =>
    simp only [fold,Option.bind_eq_some_iff,ih,List.forall₂_cons_left_iff]
    have place : ∀ d (ds : List Nat), value * base ^ (d :: ds).length +
        Nat.ofDigits base (d :: ds).reverse =
          (value * base + d) * base ^ ds.length + Nat.ofDigits base ds.reverse := by
      intro d ds
      rw [List.reverse_cons,Nat.ofDigits_append,Nat.ofDigits_singleton,List.length_reverse,
        List.length_cons,Nat.pow_succ]
      ring
    constructor
    · intro h
      obtain ⟨d,first,ds,rest,rfl⟩ := h
      exact ⟨d :: ds,⟨d,ds,first,rest,rfl⟩,(place d ds).symm⟩
    · intro h
      obtain ⟨_,⟨d,ds,first,rest,rfl⟩,rfl⟩ := h
      exact ⟨d,first,ds,rest,place d ds⟩

theorem digitsExact {base : Nat} {digit? : Char → Option Nat} {t : Text} {n : Nat} :
    fold base digit? 0 t = some n ↔ Digits base digit? t n := by
  simp [foldExact,Digits]

theorem decimalExact {t : Text} {n : Nat} :
    decimal? t = some n ↔ t ≠ [] ∧ t.length ≤ maxDigits ∧ Digits 10 Text.digit? t n := by
  unfold decimal?
  split
  next refused =>
    refine ⟨nofun,fun ⟨filled,short,_⟩ => ?_⟩
    rcases refused with none | long
    · exact absurd none filled
    · omega
  next fits =>
    rw [not_or] at fits
    rw [digitsExact]
    exact ⟨fun digits => ⟨fits.1,Nat.not_lt.mp fits.2,digits⟩,fun h => h.2.2⟩

theorem hexadecimalExact {t : Text} {n : Nat} :
    hexadecimal? t = some n ↔ t ≠ [] ∧ Digits 16 hexDigit? t n := by
  unfold hexadecimal?
  split
  next none => exact ⟨nofun,fun h => absurd none h.1⟩
  next some => rw [digitsExact]; exact ⟨fun digits => ⟨some,digits⟩,And.right⟩

theorem digitsKnown {base : Nat} {digit? : Char → Option Nat} {t : Text} {n : Nat}
    (h : Digits base digit? t n) : ∀ c ∈ t, digit? c ≠ none := by
  obtain ⟨ds,digits,_⟩ := h
  clear * - digits
  induction digits with
  | nil => exact nofun
  | cons first rest ih =>
    intro c hc
    rcases List.mem_cons.mp hc with rfl | inside
    · simp [first]
    · exact ih c inside

/- None of the characters that mark another spelling is a decimal digit. -/
theorem decimalUnmarked {c : Char} (mark : c ∈ ['x','X','+','-']) {t : Text} {n : Nat}
    (h : Digits 10 Text.digit? t n) : c ∉ t := by
  have none : Text.digit? c = none := by
    simp only [List.mem_cons,List.not_mem_nil,or_false] at mark
    rcases mark with rfl | rfl | rfl | rfl
    all_goals rfl
  exact fun member => digitsKnown h c member none

theorem magnitudeExact {t : Text} {n : Nat} : magnitude? t = some n ↔ Magnitude t n := by
  unfold magnitude?
  constructor
  · intro h
    split at h
    next => obtain ⟨some,digits⟩ := hexadecimalExact.mp h; exact .hexadecimal (.inl rfl) some digits
    next => obtain ⟨some,digits⟩ := hexadecimalExact.mp h; exact .hexadecimal (.inr rfl) some digits
    next => obtain ⟨some,short,digits⟩ := decimalExact.mp h; exact .decimal some short digits
  · intro h
    cases h with
    | decimal some short digits =>
      split
      next => exact absurd (by simp) (decimalUnmarked (c := 'x') (by simp) digits)
      next => exact absurd (by simp) (decimalUnmarked (c := 'X') (by simp) digits)
      next => exact decimalExact.mpr ⟨some,short,digits⟩
    | hexadecimal mark some digits =>
      rcases mark with rfl | rfl
      · exact hexadecimalExact.mpr ⟨some,digits⟩
      · exact hexadecimalExact.mpr ⟨some,digits⟩

theorem magnitudeUnsigned {c : Char} {t : Text} {n : Nat} (sign : c = '+' ∨ c = '-') :
    ¬Magnitude (c :: t) n := by
  intro h
  cases h with
  | decimal _ _ digits =>
    exact decimalUnmarked (by rcases sign with rfl | rfl <;> simp) digits List.mem_cons_self
  | hexadecimal => rcases sign with sign | sign <;> cases sign

theorem readNegative {t : Text} {v : Int} :
    read? ('-' :: t) = some v ↔ ∃ n : Nat, magnitude? t = some n ∧ v = -n := by
  change Option.map _ (magnitude? t >>= fun n => pure (n : Int)) = some v ↔ _
  cases magnitude? t with
  | none => exact ⟨nofun,fun ⟨_,h,_⟩ => nomatch h⟩
  | some n => simp [eq_comm]

theorem readExact {t : Text} {v : Int} : read? t = some v ↔ Spells t v := by
  constructor
  · intro h
    have whole := h
    unfold read? at h
    split at h
    next =>
      obtain ⟨n,found,rfl⟩ := readNegative.mp whole
      exact .negative (magnitudeExact.mp found)
    next =>
      obtain ⟨n,found,rfl⟩ := Option.map_eq_some_iff.mp h
      exact .positive (magnitudeExact.mp found)
    next =>
      obtain ⟨n,found,rfl⟩ := Option.map_eq_some_iff.mp h
      exact .plain (magnitudeExact.mp found)
  · intro h
    cases h with
    | plain magnitude =>
      have signs : ∀ c u, t = c :: u → ¬(c = '+' ∨ c = '-') := by
        rintro c u rfl sign
        exact magnitudeUnsigned sign magnitude
      unfold read?
      split
      next u => exact absurd (.inr rfl) (signs '-' u rfl)
      next u => exact absurd (.inl rfl) (signs '+' u rfl)
      next => exact Option.map_eq_some_iff.mpr ⟨_,magnitudeExact.mpr magnitude,rfl⟩
    | positive magnitude => exact Option.map_eq_some_iff.mpr ⟨_,magnitudeExact.mpr magnitude,rfl⟩
    | negative magnitude => exact readNegative.mpr ⟨_,magnitudeExact.mpr magnitude,rfl⟩

/-! Long numbers. -/

/-- A hexadecimal literal with at most one sign. -/
def Hexadecimal (raw : Text) : Prop :=
  ∃ sign x digits, sign ∈ [[],['-'],['+']] ∧ (x = 'x' ∨ x = 'X') ∧ raw = sign ++ '0' :: x :: digits

theorem foldBound {base : Nat} {digit? : Char → Option Nat}
    (below : ∀ c d, digit? c = some d → d < base) {value n : Nat} {digits : Text}
    (h : fold base digit? value digits = some n) : n < (value + 1) * base ^ digits.length := by
  induction digits generalizing value with
  | nil => cases h; simp
  | cons c digits ih =>
    obtain ⟨d,found,rest⟩ := Option.bind_eq_some_iff.mp h
    have digit := below c d found
    have place : value * base + d + 1 ≤ (value + 1) * base := by rw [Nat.add_mul]; omega
    calc n < (value * base + d + 1) * base ^ digits.length := ih rest
      _ ≤ (value + 1) * base * base ^ digits.length := Nat.mul_le_mul_right _ place
      _ = (value + 1) * base ^ (c :: digits).length := by
        rw [List.length_cons,Nat.pow_succ,Nat.mul_assoc,Nat.mul_comm base]

theorem decimalBound {digits : Text} {n : Nat} (h : decimal? digits = some n) : n < 10 ^ maxDigits := by
  unfold decimal? at h
  split at h
  next => contradiction
  next fits =>
    have bound := foldBound (fun _ _ found => Text.digitBound found) h
    rw [Nat.zero_add,Nat.one_mul] at bound
    have short : digits.length ≤ maxDigits := by
      rw [not_or] at fits
      omega
    exact Nat.lt_of_lt_of_le bound (Nat.pow_le_pow_right (by decide) short)

theorem longMagnitude {t : Text} {n : Nat} (h : magnitude? t = some n) (long : 10 ^ maxDigits ≤ n) :
    ∃ x digits, (x = 'x' ∨ x = 'X') ∧ t = '0' :: x :: digits := by
  unfold magnitude? at h
  split at h
  next digits => exact ⟨_,digits,.inl rfl,rfl⟩
  next digits => exact ⟨_,digits,.inr rfl,rfl⟩
  next => exact absurd (decimalBound h) (Nat.not_lt.mpr long)

theorem unwritableSize {i : Int} (h : isWritable i = false) : 10 ^ maxDigits ≤ i.natAbs := by
  unfold isWritable at h
  generalize maxDigits = digits at h ⊢
  exact Nat.not_lt.mp (of_decide_eq_false h)

theorem unwritableHexadecimal {raw : Text} {v : Int} (h : read? raw = some v)
    (long : isWritable v = false) : Hexadecimal raw := by
  have size := unwritableSize long
  unfold read? at h
  split at h
  next digits =>
    obtain ⟨i,read,rfl⟩ := Option.map_eq_some_iff.mp h
    obtain ⟨n,found,same⟩ := Option.bind_eq_some_iff.mp read
    cases same
    rw [Int.natAbs_neg] at size
    obtain ⟨x,rest,mark,rfl⟩ := longMagnitude found size
    exact ⟨['-'],x,rest,by simp,mark,rfl⟩
  next digits =>
    obtain ⟨n,found,rfl⟩ := Option.map_eq_some_iff.mp h
    obtain ⟨x,rest,mark,rfl⟩ := longMagnitude found size
    exact ⟨['+'],x,rest,by simp,mark,rfl⟩
  next =>
    obtain ⟨n,found,rfl⟩ := Option.map_eq_some_iff.mp h
    obtain ⟨x,rest,mark,rfl⟩ := longMagnitude found size
    exact ⟨[],x,rest,by simp,mark,rfl⟩

end ColumnDecl.Integer
