import ColumnDecl.Proofs.Token.Lexing

/-! Tokens along a text: one behind the other, from an offset on and not beyond a limit. -/
namespace ColumnDecl.Token

def Along (limit : Nat) : Nat → List Token → Prop
  | a, [] => a ≤ limit
  | a, t :: ts => a ≤ t.start ∧ Along limit t.stop ts

theorem extent (t : Token) : t.start ≤ t.stop := Nat.le_add_right _ _

theorem alongLimit {limit a : Nat} {ts : List Token} (h : Along limit a ts) : a ≤ limit := by
  induction ts generalizing a with
  | nil => exact h
  | cons t ts ih => exact Nat.le_trans h.1 (Nat.le_trans (extent t) (ih h.2))

theorem alongEarlier {limit a b : Nat} {ts : List Token} (h : Along limit a ts) (earlier : b ≤ a) :
    Along limit b ts := by
  cases ts with
  | nil => exact Nat.le_trans earlier h
  | cons t ts => exact ⟨Nat.le_trans earlier h.1,h.2⟩

theorem alongSuffix {limit a : Nat} {ts us : List Token} (h : Along limit a ts) (suffix : us <:+ ts) :
    Along limit a us := by
  obtain ⟨front,rfl⟩ := suffix
  induction front generalizing a with
  | nil => exact h
  | cons t front ih => exact alongEarlier (ih h.2) (Nat.le_trans h.1 (extent t))

theorem alongToken {limit a : Nat} {ts : List Token} (h : Along limit a ts) {t : Token}
    (member : t ∈ ts) : a ≤ t.start ∧ t.stop ≤ limit := by
  obtain ⟨front,back,rfl⟩ := List.append_of_mem member
  obtain ⟨start,rest⟩ := alongSuffix h (List.suffix_append front (t :: back))
  exact ⟨start,alongLimit rest⟩

/- Behind one of its tokens a list goes on from where that token stops. -/
theorem alongBehind {limit a : Nat} {front rest : List Token} {t : Token}
    (h : Along limit a (front ++ t :: rest)) : a ≤ t.start ∧ Along limit t.stop rest :=
  alongSuffix h (List.suffix_append front (t :: rest))

theorem lexesAlong {p : Nat} {text : Text} {ts : List Token} (h : Lexes p text ts) {limit : Nat}
    (fits : p + text.length ≤ limit) : Along limit p ts := by
  induction h with
  | done p => exact fits
  | gap layout rest ih =>
    rw [List.length_cons] at fits
    exact alongEarlier (ih (by omega)) (Nat.le_succ _)
  | @token p c t tag n ts visible found rest ih =>
    have bound := lexemeBound found
    rw [List.length_cons] at fits
    have size : p + (c :: t.take n).length = p + 1 + n := by
      rw [List.length_cons,List.length_take]
      omega
    refine ⟨Nat.le_refl p,?_⟩
    rw [stop,size]
    exact ih (by rw [List.length_drop]; omega)

/- No token begins with layout. -/
theorem lexesVisible {p : Nat} {text : Text} {ts : List Token} (h : Lexes p text ts) {x : Token}
    (member : x ∈ ts) : ∃ c, text[x.start - p]? = some c ∧ Text.isLayout c = false := by
  induction h with
  | done p => contradiction
  | @gap p c t ts layout rest ih =>
    have bound := lexesBounds rest x member
    rw [show x.start - p = x.start - (p + 1) + 1 by omega,List.getElem?_cons_succ]
    exact ih member
  | @token p c t tag n ts visible found rest ih =>
    rcases List.mem_cons.mp member with rfl | member
    · exact ⟨c,by simp,visible⟩
    · have bound := lexesBounds rest x member
      rw [show x.start - p = n + (x.start - (p + 1 + n)) + 1 by omega,List.getElem?_cons_succ,
        ← List.getElem?_drop]
      exact ih member

end ColumnDecl.Token
