import ColumnDecl.Column

/-! Columns from drafts. The checks of a draft do not look at its own name, so a name may be put in
before or after them. -/
namespace ColumnDecl.Column

theorem ofDraftExact {d : Draft} {c : Column} :
    ofDraft d = .ok c ↔
      d.fault? = none ∧ ∃ length, d.length = .ok length ∧ c = d.withLength length := by
  unfold ofDraft
  cases fault : d.fault? with
  | some cause => exact ⟨nofun,fun ⟨h,_⟩ => nomatch h⟩
  | none =>
    cases size : d.length with
    | error cause => exact ⟨nofun,fun ⟨_,_,h,_⟩ => nomatch h⟩
    | ok length =>
      constructor
      · intro h; cases h; exact ⟨rfl,length,rfl,rfl⟩
      · intro h
        obtain ⟨_,_,h,rfl⟩ := h
        cases h
        rfl

theorem draftRenamed {d : Draft} {c : Column} (h : ofDraft d = .ok c) (name : Text) :
    ofDraft { d with name := name } = .ok { c with name := name } := by
  rw [ofDraftExact] at h ⊢
  obtain ⟨fault,length,size,rfl⟩ := h
  exact ⟨fault,length,size,rfl⟩

theorem draftRetold {d : Draft} {c : Column} (h : ofDraft d = .ok c) (text : Text) :
    ofDraft { d with typeText := text } = .ok { c with typeText := text } := by
  rw [ofDraftExact] at h ⊢
  obtain ⟨fault,length,size,rfl⟩ := h
  exact ⟨fault,length,size,rfl⟩

theorem draftName {d : Draft} {c : Column} (h : ofDraft d = .ok c) : c.name = d.name := by
  rw [ofDraftExact] at h
  obtain ⟨_,_,_,rfl⟩ := h
  rfl

theorem draftText {d : Draft} {c : Column} (h : ofDraft d = .ok c) : c.typeText = d.typeText := by
  rw [ofDraftExact] at h
  obtain ⟨_,_,_,rfl⟩ := h
  rfl

theorem draftNested {d : Draft} {c : Column} (h : ofDraft d = .ok c) : c.nested = d.nested := by
  rw [ofDraftExact] at h
  obtain ⟨_,_,_,rfl⟩ := h
  rfl

theorem renamedSame {c : Column} {name : Text} (h : c.name = name) :
    { c with name := name } = c := by
  cases c
  cases h
  rfl

/- A type that is not marked, with its own text, is the column already. -/
theorem unmarkedSame {c : Column} {text : Text} (same : c.typeText = text) :
    { c with typeText := text, nullable := c.nullable || false } = c := by
  cases c
  cases same
  simp

/-! Numbers of nested columns. -/

/-- How many columns a kind may have nested in it. -/
def Counted (kind : Kind) (count : Nat) : Prop :=
  match kind with
  | .array | .simpleAggregateFunction => count = 1
  | .map => count = 2
  | .tuple | .nested => count ≠ 0
  | _ => True

theorem arityExact {d : Draft} : d.arityFault? = none ↔ Counted d.kind d.nested.length := by
  unfold Draft.arityFault? Counted
  cases d.kind <;> simp

theorem arityCause {d : Draft} {cause : Cause} (h : d.arityFault? = some cause) :
    cause.category = .invalid := by
  unfold Draft.arityFault? at h
  dsimp only at h
  split at h
  all_goals first | (split at h <;> cases h <;> rfl) | cases h

theorem faultCause {d : Draft} {cause : Cause} (h : d.fault? = some cause) :
    cause.category = .invalid := by
  unfold Draft.fault? at h
  split at h
  · cases h; rfl
  split at h
  next arity => cases h; exact arityCause arity
  split at h
  · cases h; rfl
  split at h
  · obtain ⟨c,_,rfl⟩ := Option.map_eq_some_iff.mp h
    rfl
  · cases h

theorem faultExact {d : Draft} (simple : d.kind.isWrapper = false) (plain : d.kind.isEnum = false) :
    d.fault? = none ↔ Counted d.kind d.nested.length ∧
      (d.kind = .nested → ∀ c ∈ d.nested, c.name ≠ []) := by
  have enum : (d.kind == .enum) = false := by
    simp only [Kind.isEnum,Bool.or_eq_false_iff] at plain
    exact plain.1.1
  unfold Draft.fault?
  rw [simple,enum,plain]
  cases arity : d.arityFault? with
  | some cause => simp [← arityExact,arity]
  | none =>
    have counted : Counted d.kind d.nested.length := arityExact.mp arity
    by_cases named : d.kind = .nested
    · rw [named] at counted ⊢
      simp [counted]
    · simp [named,counted]

theorem draftMade {d : Draft} (fault : d.fault? = none) (fixed : d.fixedLength = none)
    (precision : d.precision = none) : ∃ length, ofDraft d = .ok (d.withLength length) := by
  have size : ∃ length, d.length = .ok length := by
    unfold Draft.length
    rw [fixed,precision]
    exact ⟨_,rfl⟩
  obtain ⟨length,size⟩ := size
  exact ⟨length,ofDraftExact.mpr ⟨fault,length,size,rfl⟩⟩

theorem draftRefused {d : Draft} {cause : Cause} (fault : d.fault? = some cause) :
    ofDraft d = .error ⟨cause,some d.typeText,none,none⟩ := by
  unfold ofDraft
  rw [fault]

end ColumnDecl.Column
