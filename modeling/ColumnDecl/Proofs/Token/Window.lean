import ColumnDecl.Proofs.Token.Lexing
import ColumnDecl.Token.Window
import Mathlib.Data.List.TakeWhile

/-! A window on a whole text: from an offset between two tokens on, it shows the tokens behind that
offset, and layout is skipped without running over the end. -/
namespace ColumnDecl.Window
open Token

theorem ofTextExact {text : Text} {stop : Nat} {w : Window} :
    ofText text stop = .ok w ↔ ∃ ts, w = ⟨text,ts⟩ ∧ Lexes 0 (text.take stop) ts := by
  unfold ofText
  cases lexed : stream (text.take stop) with
  | error fault =>
    refine ⟨nofun,fun ⟨ts,_,h⟩ => ?_⟩
    rw [streamExact.mpr h] at lexed
    contradiction
  | ok ts =>
    have known := streamExact.mp lexed
    constructor
    · intro h
      cases h
      exact ⟨ts,rfl,known⟩
    · rintro ⟨us,rfl,h⟩
      rw [lexesUnique known h]
      rfl

theorem wholeExact {text : Text} {w : Window} :
    ofText text text.length = .ok w ↔ ∃ ts, w = ⟨text,ts⟩ ∧ Lexes 0 text ts := by
  rw [ofTextExact,List.take_length]

theorem ofWhole {text : Text} {ts : List Token} (h : Lexes 0 text ts) :
    ofText text text.length = .ok ⟨text,ts⟩ := wholeExact.mpr ⟨ts,rfl,h⟩

theorem betweenBehind {text : Text} {front core : List Token} {a b : Nat}
    (before : ∀ x ∈ front, x.start < a) (behind : ∀ x ∈ core, a ≤ x.start ∧ x.stop ≤ b) :
    (Window.mk text (front ++ core)).between a b = core := by
  unfold between
  have first : (front ++ core).dropWhile (fun x => decide (x.start < a)) = core := by
    rw [List.dropWhile_append_of_pos (by simpa using before)]
    rcases core with _ | ⟨t,core⟩
    · rfl
    · have := (behind t List.mem_cons_self).1
      rw [List.dropWhile_cons_of_neg (by simpa using this)]
  rw [first,List.takeWhile_eq_self_iff]
  intro x hx
  simpa using (behind x hx).2

theorem skipWhole {stop pos : Nat} {t : Text} (fits : stop ≤ pos + t.length) :
    ∃ next, skipFrom stop pos t = .ok next := by
  induction t generalizing pos with
  | nil =>
    refine ⟨pos,if_neg ?_⟩
    rw [List.length_nil] at fits
    omega
  | cons c t ih =>
    unfold skipFrom
    split
    · exact ih (by rw [List.length_cons] at fits; omega)
    · exact ⟨pos,rfl⟩

theorem skipLayoutWhole {w : Window} (a : Nat) :
    ∃ next, w.skipLayout a w.text.length = .ok next := by
  apply skipWhole
  rw [List.length_drop]
  omega

theorem skipBetween {stop pos next : Nat} {t : Text} (h : skipFrom stop pos t = .ok next)
    (order : pos ≤ stop) : next ≤ stop ∧
      ∀ c i, t[i]? = some c → Text.isLayout c = false → next ≤ pos + i := by
  induction t generalizing pos with
  | nil =>
    unfold skipFrom at h
    split at h
    next => contradiction
    next => cases h; exact ⟨order,nofun⟩
  | cons c t ih =>
    unfold skipFrom at h
    split at h
    next skipped =>
      obtain ⟨inside,layout⟩ := skipped
      obtain ⟨high,shown⟩ := ih h inside
      refine ⟨high,fun d i found visible => ?_⟩
      rcases i with _ | i
      · cases found
        rw [layout] at visible
        contradiction
      · have := shown d i found visible
        omega
    next => cases h; exact ⟨order,fun _ i _ _ => Nat.le_add_right _ i⟩

end ColumnDecl.Window
