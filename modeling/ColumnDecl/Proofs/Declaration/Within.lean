import ColumnDecl.Proofs.Declaration.Local

/-! Where the columns nested in a column come from. Each was read by the reader of the level below, or
was nested in the one column that a wrapper took. -/
namespace ColumnDecl

/-- The first column is the second, or occurs in it at some depth. -/
inductive Column.Within : Column → Column → Prop where
  | self (c : Column) : Within c c
  | nested {x y c : Column} (member : y ∈ c.nested) (deeper : Within x y) : Within x c

namespace Declaration
open Token

def Origin (inner : Reader) (ts : List Token) (y : Column) : Prop :=
  ∃ names start us c rest, us <:+ ts ∧ inner names start us = .ok (c, rest) ∧
    (y = c ∨ y ∈ c.nested)

theorem originSuffix {inner : Reader} {ts us : List Token} {y : Column} (h : Origin inner us y)
    (suffix : us <:+ ts) : Origin inner ts y := by
  obtain ⟨names,start,vs,c,rest,inside,read,same⟩ := h
  exact ⟨names,start,vs,c,rest,inside.trans suffix,read,same⟩

section
variable {inner : Scope → Reader}

theorem listedOrigin (carries : Carries inner inner) {s : Scope} {ts : List Token} {kind : Kind}
    {start : Nat} {p : Parts}
    (list : Listed (inner s) kind start ts p) {c y : Column} (member : c ∈ p.columns)
    (same : y = c ∨ y ∈ c.nested) : Origin (inner s) ts y := by
  obtain ⟨start',us,rest,suffix,read⟩ := listedMember list member (carriesSuffix carries s)
  exact ⟨_,start',us,c,rest,suffix,read,same⟩

def Originates (inner : Scope → Reader) (form : Form) : Prop :=
  ∀ s h opening ts r, form s h opening ts = .ok r → ∀ y ∈ r.column.nested, Origin (inner s) ts y

theorem wrappedOrigin (carries : Carries inner inner) :
    Originates inner (fun s => wrapped s (inner s)) := by
  intro s h opening ts r read y member
  obtain ⟨list,found,read⟩ := bindOk.mp read
  dsimp only at read
  split at read
  next c one =>
    cases read
    have inside : c ∈ list.columns := by rw [one]; exact List.mem_singleton_self c
    exact listedOrigin carries (listedSound found) inside (.inr member)
  next => contradiction

theorem composedOrigin (carries : Carries inner inner) :
    Originates inner (fun s => composed s (inner s)) := by
  intro s h opening ts r read y member
  obtain ⟨list,found,read⟩ := bindOk.mp read
  obtain ⟨column,made,read⟩ := bindOk.mp read
  cases read
  rw [Column.draftNested (buildOverExact.mp made)] at member
  exact listedOrigin carries (listedSound found) member (.inl rfl)

theorem aggregatedOrigin (carries : Carries inner inner) :
    Originates inner (fun s => aggregated s (inner s)) := by
  intro s h opening ts r read y member
  obtain ⟨c,called,read⟩ := bindOk.mp read
  obtain ⟨list,found,read⟩ := bindOk.mp read
  obtain ⟨column,made,read⟩ := bindOk.mp read
  cases read
  rw [Column.draftNested (buildOverExact.mp made)] at member
  obtain ⟨used,whole,_⟩ := callsCarried (callsSound called)
  have follows := followsExact.mp found
  generalize c.rest = us at follows whole
  cases follows with
  | none closing => contradiction
  | @some t rest p comma list =>
    refine originSuffix (listedOrigin carries list member (.inl rfl)) ?_
    exact ⟨used ++ [t],by rw [whole]; simp⟩

theorem ignoredOrigin : Originates inner ignored := by
  intro s h opening ts r read y member
  unfold ignored at read
  split at read
  next => contradiction
  next =>
    obtain ⟨args,_,read⟩ := bindOk.mp read
    obtain ⟨column,made,read⟩ := bindOk.mp read
    cases read
    rw [Column.draftNested (buildExact.mp made)] at member
    contradiction

theorem parameterisedOrigin : Originates inner parameterised := by
  intro s h opening ts r read y member
  obtain ⟨args,_,read⟩ := bindOk.mp read
  dsimp only at read
  split at read
  next =>
    obtain ⟨_,_,read⟩ := bindOk.mp read
    obtain ⟨column,made,read⟩ := bindOk.mp read
    cases read
    rw [Column.draftNested (buildExact.mp made)] at member
    contradiction
  next =>
    obtain ⟨_,_,read⟩ := bindOk.mp read
    obtain ⟨column,made,read⟩ := bindOk.mp read
    cases read
    rw [Column.draftNested (buildExact.mp made)] at member
    contradiction

theorem formOrigin (carries : Carries inner inner) (kind : Kind) :
    Originates inner (formOf inner kind) := by
  unfold formOf
  split
  · exact wrappedOrigin carries
  split
  · exact aggregatedOrigin carries
  split
  · exact ignoredOrigin
  · exact composedOrigin carries
  · exact parameterisedOrigin

end

theorem bodyOrigin {inner : Scope → Reader} (carries : Carries inner inner) {s : Scope} {name : Text}
    {start : Nat} {t : Token} {ts rest : List Token} {c : Column}
    (read : body s (inner s) name start t ts = .ok (c, rest)) :
    ∀ y ∈ c.nested, Origin (inner s) (t :: ts) y := by
  intro y member
  obtain ⟨typed,after,mods,clause,typedRead,_,same⟩ := bodyExact.mp read
  cases same
  obtain ⟨hit,known,⟨_,plain⟩ | ⟨o,rest,opens,form⟩⟩ := typeSound typedRead
  · obtain ⟨_,column,made,same⟩ := bareExact.mp plain
    rw [same,Column.draftNested made] at member
    contradiction
  · obtain ⟨words,led⟩ := keywordSound known
    obtain ⟨behind,_⟩ := openedExact.mp opens
    refine originSuffix (formOrigin carries _ _ _ _ _ _ form y member) ?_
    exact ⟨words ++ [o],by rw [led.whole,behind]; simp⟩

end Declaration
end ColumnDecl
