import ColumnDecl.Proofs.Declaration.Series

/-! Excerpts and insertions. An excerpt from one token to another has the tokens between these two,
and a text put into a longer one at a break keeps its tokens. -/
namespace ColumnDecl.Declaration
open Token

theorem closesLast {core : List Token} {stop : Nat} (h : Closes core stop) :
    ∃ front t, core = front ++ [t] ∧ t.stop = stop := by
  obtain ⟨t,last,same⟩ := Option.map_eq_some_iff.mp h
  obtain ⟨front,whole⟩ := List.getLast?_eq_some_iff.mp last
  exact ⟨front,t,whole,same⟩

theorem lexesExcerpt {text : Text} {front core back : List Token} {t : Token} {stop : Nat}
    (h : Lexes 0 text (front ++ (t :: core ++ back))) (closes : Closes (t :: core) stop) :
    t.start ≤ stop ∧ stop ≤ text.length ∧ Lexes t.start (text.slice t.start stop) (t :: core) := by
  obtain ⟨init,z,whole,rfl⟩ := closesLast closes
  have member : z ∈ t :: core := by rw [whole]; simp
  have bounds : ∀ x ∈ t :: core, x.start < x.stop ∧ x.stop ≤ text.length := by
    intro x hx
    have := lexesBounds h x (by simp only [List.mem_append]; exact .inr (.inl hx))
    omega
  obtain ⟨_,tail,before⟩ := List.pairwise_append.mp (lexesOrdered h)
  obtain ⟨inner,_,after⟩ := List.pairwise_append.mp tail
  have behind : ∀ x ∈ t :: core, t.start ≤ x.start := by
    intro x hx
    rcases List.mem_cons.mp hx with rfl | hx
    · exact Nat.le_refl _
    · have := List.rel_of_pairwise_cons inner hx
      have := bounds t List.mem_cons_self
      omega
  have ahead : ∀ x ∈ t :: core, x.stop ≤ z.stop := by
    intro x hx
    rw [whole] at hx inner
    rcases List.mem_append.mp hx with hx | hx
    · have := (List.pairwise_append.mp inner).2.2 x hx z (by simp)
      have := bounds z member
      omega
    · cases List.mem_singleton.mp hx
      exact Nat.le_refl _
  have order : t.start ≤ z.stop := by
    have := bounds t List.mem_cons_self
    have := ahead t List.mem_cons_self
    omega
  refine ⟨order,(bounds z member).2,lexesSlice h order (bounds z member).2 ?_ ?_ ?_⟩
  · intro x hx; exact before x hx t (by simp)
  · intro x hx; exact ⟨behind x hx,ahead x hx⟩
  · intro x hx; exact after z member x hx

def excerpt (s : Scope) (d : Dialect) (start stop : Nat) : Scope :=
  d.scope (s.text.slice start stop) (s.text.slice start stop).length

def excerptPassage (s : Scope) (d : Dialect) (start stop : Nat) (words : s.keywords = d.keywords)
    (fits : start ≤ stop ∧ stop ≤ s.text.length) : Passage where
  source := s
  target := excerpt s d start stop
  start := start
  offset := 0
  size := stop - start
  keywords := words
  text := by
    change _ = (s.text.slice start stop).slice 0 _
    rw [Nat.add_sub_cancel' fits.1,Nat.zero_add,Text.sliceZero]
    exact (List.take_of_length_le (Text.sliceLength _ _ _)).symm

theorem excerptTokens {s : Scope} {d : Dialect} {start stop : Nat} {ts : List Token}
    (words : s.keywords = d.keywords) (fits : start ≤ stop ∧ stop ≤ s.text.length)
    (h : Lexes start (s.text.slice start stop) ts) : ∃ us,
      Lexes 0 (s.text.slice start stop) us ∧ (excerptPassage s d start stop words fits).Sames ts us := by
  obtain ⟨us,again,same⟩ := lexesMoved h 0
  rw [Text.sliceFits fits.2] at same
  exact ⟨us,again,same⟩

def insertion (d d' : Dialect) {whole before part after : Text} (words : d.keywords = d'.keywords)
    (parts : whole = before ++ (part ++ after)) : Passage where
  source := d.scope part part.length
  target := d'.scope whole whole.length
  start := 0
  offset := before.length
  size := part.length
  keywords := words
  text := by
    change part.slice 0 _ = whole.slice _ _
    rw [Nat.zero_add,Text.sliceWhole,parts,Text.slice,List.drop_left,Nat.add_sub_cancel_left,
      List.take_left]

theorem insertionTokens {d d' : Dialect} {whole before part after : Text} {ts : List Token}
    (words : d.keywords = d'.keywords) (parts : whole = before ++ (part ++ after))
    (h : Lexes 0 part ts) : ∃ us,
      Lexes before.length part us ∧ (insertion d d' words parts).Sames ts us :=
  lexesMoved h before.length

end ColumnDecl.Declaration
