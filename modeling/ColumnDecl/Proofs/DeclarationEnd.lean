import ColumnDecl.Proofs.Declaration.Course
import ColumnDecl.Proofs.Declaration.Series
import ColumnDecl.Proofs.Token.Window

/-! The two ways to find the end of a declaration, by reading it and by counting brackets from its
start on, agree where no kinds of brackets are mixed. -/
namespace ColumnDecl.Dialect
open Token Declaration

/- A window that was cut off at `stop` shows all its tokens from an offset on. -/
theorem shownTail {text : Text} {ts : List Token} {stop : Nat} (lexed : Lexes 0 (text.take stop) ts)
    (start : Nat) : (Window.mk text ts).between start stop <:+ ts := by
  unfold Window.between
  rw [List.takeWhile_eq_self_iff.mpr]
  · exact List.dropWhile_suffix _
  intro x hx
  have bound := (lexesBounds lexed x ((List.dropWhile_suffix _).subset hx)).2.2
  rw [List.length_take] at bound
  exact decide_eq_true (by omega)

theorem shownUntil {w : Window} {start stop next : Nat} {used rest : List Token}
    (shown : w.between start stop = used ++ rest) (fits : next ≤ stop)
    (before : ∀ x ∈ used, x.stop ≤ next) (behind : ∀ x ∈ rest, next < x.stop) :
    w.between start next = used := by
  have inner : w.between start next = (w.between start stop).takeWhile (·.stop ≤ next) := by
    unfold Window.between
    rw [List.takeWhile_takeWhile]
    congr 1
    funext x
    rw [Bool.eq_iff_iff]
    simp only [decide_eq_true_iff]
    omega
  rw [inner,shown,List.takeWhile_append_of_pos (by simpa using before)]
  rcases rest with _ | ⟨d,rest⟩
  · simp
  · have := behind d List.mem_cons_self
    rw [List.takeWhile_cons_of_neg (by simpa using this),List.append_nil]

/- From the start on to where a part of these tokens ends, the window shows just this part. -/
theorem shownRead {text : Text} {ts used rest : List Token} {start stop : Nat}
    (lexed : Lexes 0 (text.take stop) ts)
    (shown : (Window.mk text ts).between start stop = used ++ rest) :
    (Window.mk text ts).between start ((rest.head?.map Token.start).getD stop) = used := by
  obtain ⟨front,tail⟩ := shownTail lexed start
  rw [shown] at tail
  have order := lexesOrdered lexed
  have bounds := lexesBounds lexed
  rw [← tail] at order bounds
  obtain ⟨_,behind,across⟩ := List.pairwise_append.mp (List.pairwise_append.mp order).2.1
  have within : ∀ x ∈ used ++ rest, x.start < x.stop ∧ x.stop ≤ stop := by
    intro x hx
    have bound := bounds x (List.mem_append_right front hx)
    rw [List.length_take] at bound
    omega
  rcases rest with _ | ⟨e,rest⟩
  · exact shownUntil shown (Nat.le_refl stop) (fun x hx => (within x (by simp [hx])).2) nofun
  have last := within e (by simp)
  refine shownUntil shown (by change e.start ≤ stop; omega)
    (fun x hx => across x hx e List.mem_cons_self) ?_
  intro x hx
  change e.start < x.stop
  have size := within x (List.mem_append_right used hx)
  rcases List.mem_cons.mp hx with rfl | hx
  · exact size.1
  · have := List.rel_of_pairwise_cons behind hx
    omega

theorem cutAtAll {ends : Token → Bool} (all : ∀ t, t.isDelimiter = true → ends t = true) (k : Nat)
    (ts : List Token) : cutAt ends k ts = cutFrom k ts := by
  induction ts generalizing k with
  | nil => rfl
  | cons t ts ih =>
    rw [cutFromCons,cutAt]
    by_cases here : k = 0 ∧ t.isDelimiter = true
    · rw [if_pos here,if_pos ⟨here.1,here.2,all t here.2⟩]
    · rw [if_neg here,if_neg (fun h => here ⟨h.1,h.2.1⟩),ih]

theorem delimiterCut {w : Window} {start stop : Nat} {used rest : List Token}
    (here : cut (w.between start stop) = (used,rest)) :
    w.delimiter [',',')'] start stop = (rest.head?.map Token.start).getD stop := by
  have all : ∀ t : Token, t.isDelimiter = true →
      [',',')'].contains (if t.tag = .comma then ',' else ')') = true := by
    intro t _
    split
    · rfl
    · rfl
  have same : (cutAt _ 0 (w.between start stop)).2 = rest :=
    (congrArg Prod.snd (cutAtAll all 0 _)).trans (congrArg Prod.snd here)
  unfold Window.delimiter
  dsimp only
  rw [same]
  rcases rest with _ | ⟨d,rest⟩
  · rfl
  · rfl

theorem windowSound {text : Text} {stop : Nat} {w : Window}
    (h : (Window.ofText text stop).mapError Failure.rejected = .ok w) :
    ∃ ts, w = ⟨text,ts⟩ ∧ Lexes 0 (text.take stop) ts := by
  cases opened : Window.ofText text stop with
  | error fault => rw [opened] at h; contradiction
  | ok v =>
    rw [opened] at h
    cases h
    exact Window.ofTextExact.mp opened

theorem readColumnSound {d : Dialect} {text : Text} {start stop : Nat} {parent : Option Kind}
    {r : Reading} (h : d.readColumn text start stop parent = .ok r) :
    ∃ ts first rest, Lexes 0 (text.take stop) ts ∧
      outermost (d.scope text stop) (allowsNames parent) first
        ((Window.mk text ts).between start stop) = .ok (r.column,rest) ∧
      r.next = (rest.head?.map Token.start).getD stop := by
  obtain ⟨w,window,h⟩ := bindOk.mp h
  obtain ⟨first,_,h⟩ := bindOk.mp h
  obtain ⟨⟨column,rest⟩,read,h⟩ := bindOk.mp h
  cases h
  obtain ⟨ts,rfl,lexed⟩ := windowSound window
  refine ⟨ts,first,rest,lexed,read,?_⟩
  rcases rest with _ | ⟨d,rest⟩
  · rfl
  · rfl

theorem endsAtDelimiter {d : Dialect} {text : Text} {start stop : Nat} {parent : Option Kind}
    {r : Reading} (h : d.readColumn text start stop parent = .ok r) :
    ∃ w, Window.ofText text stop = .ok w ∧
      (nested (w.between start r.next) = true → w.delimiter [',',')'] start stop = r.next) := by
  obtain ⟨ts,first,rest,lexed,read,next⟩ := readColumnSound h
  refine ⟨⟨text,ts⟩,?_,fun good => ?_⟩
  · unfold Window.ofText
    rw [streamExact.mpr lexed]
    rfl
  obtain ⟨used,shown,ended,course⟩ := declarationCourse (nestedReaderRuns d.maxDepth) read
  rw [next,shownRead lexed shown] at good
  have flat := nestedAwaited good
  have here := passedEnds (coursePassed course flat) (behindDepth flat) ended
  rw [← shown] at here
  rw [delimiterCut here,next]

theorem endsAtDelimiterNested :
    let d : Dialect :=
      ⟨⟨[("MAP".toList,.map),("STRING".toList,.string),("VARCHAR".toList,.string)],1⟩,1⟩
    let text := "(k Map(String, VARCHAR([1, 2])) DEFAULT f({1, 2}), z UInt8".toList
    ∃ r w, d.readColumn text 1 text.length none = .ok r ∧ Window.ofText text text.length = .ok w ∧
      nested (w.between 1 r.next) = true ∧ r.next = 49 ∧
      w.delimiter [',',')'] 1 text.length = 49 := by
  intro d text
  have seen : (d.readColumn text 1 text.length none).toOption.map Reading.next = some 49 := by
    decide +kernel
  have good : (Window.ofText text text.length).toOption.map (fun w => nested (w.between 1 49)) =
      some true := by decide +kernel
  cases read : d.readColumn text 1 text.length none with
  | error failure => rw [read] at seen; contradiction
  | ok r =>
    rw [read] at seen
    have next : r.next = 49 := Option.some.inj seen
    obtain ⟨w,window,ends⟩ := endsAtDelimiter read
    rw [window] at good
    rw [next] at ends
    have flat : nested (w.between 1 49) = true := Option.some.inj good
    exact ⟨r,w,rfl,window,next.symm ▸ flat,next,ends flat⟩

end ColumnDecl.Dialect
