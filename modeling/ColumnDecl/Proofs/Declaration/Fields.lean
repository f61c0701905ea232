import ColumnDecl.Proofs.Declaration.Embedded

/-! A list of fields written out between parentheses is read as their columns, one level deeper than
each was read alone. -/
namespace ColumnDecl
open Token Declaration

structure Field where
  name : Text
  text : Text
  column : Column
  deriving DecidableEq, Repr

namespace Field

def source (f : Field) : Text := declared f.name f.text

structure Fits (d : Dialect) (f : Field) : Prop where
  read : d.columnOf f.name f.text = .ok f.column
  nested : NestedText f.text

theorem Fits.named {d : Dialect} {f : Field} (h : f.Fits d) : f.column.name = f.name := by
  obtain ⟨_,_,column,_,_,same⟩ := Dialect.columnOfExact.mp h.read
  rw [same]

theorem columnNames {d : Dialect} {fields : List Field} (fits : ∀ f ∈ fields, f.Fits d) :
    (∀ c ∈ fields.map column, c.name ≠ []) ↔ ∀ f ∈ fields, f.name ≠ [] := by
  constructor
  · intro h f hf
    rw [← (fits f hf).named]
    exact h f.column (List.mem_map_of_mem hf)
  · intro h c hc
    obtain ⟨f,hf,rfl⟩ := List.mem_map.mp hc
    rw [(fits f hf).named]
    exact h f hf

def rest (sources : List Text) : Text := Text.join [',', ' '] sources ++ [')']

theorem restCons (a b : Text) (sources : List Text) :
    rest (a :: b :: sources) = a ++ ',' :: ' ' :: rest (b :: sources) := by
  simp [rest,Text.join]

variable {d d' : Dialect} {kind : Kind} {whole before : Text}

theorem readIn {f : Field} {after : Text} (words : d.keywords = d'.keywords) (fits : f.Fits d)
    (allowed : kind.namesItsParts = true ∨ f.name = [])
    (parts : whole = before ++ (f.source ++ after)) : ∃ t ts,
      Lexes before.length f.source (t :: ts) ∧ ∀ start more, Ended more →
        nestedReader (d'.scope whole whole.length) (d.maxDepth + 1) kind.namesItsParts start
          (t :: (ts ++ more)) = .ok (f.column, more) := by
  obtain ⟨t,ts,lexed,carry⟩ := declaredRead words parts fits.read
  refine ⟨t,ts,lexed,fun start more ended => nestedReaderExact.mpr ?_⟩
  refine ⟨d.maxDepth,t,ts ++ more,rfl,rfl,?_⟩
  exact carry d.maxDepth _ more (Nat.le_refl _) ended (.inr fits.nested) allowed.symm

theorem listed {fields : List Field} (words : d.keywords = d'.keywords) (some : fields ≠ [])
    (fits : ∀ f ∈ fields, f.Fits d) (allowed : ∀ f ∈ fields, kind.namesItsParts = true ∨ f.name = [])
    (parts : whole = before ++ rest (fields.map source)) : ∃ ts,
      Lexes before.length (rest (fields.map source)) ts ∧ ∀ start,
        Listed (nestedReader (d'.scope whole whole.length) (d.maxDepth + 1)) kind start ts
          ⟨fields.map column,whole.length,[]⟩ := by
  induction fields generalizing before with
  | nil => contradiction
  | cons f fields ih =>
    have first := fits f List.mem_cons_self
    have names := allowed f List.mem_cons_self
    cases fields with
    | nil =>
      have parts' : whole = before ++ (f.source ++ [')']) := parts
      obtain ⟨t,ts,lexed,carry⟩ := readIn words first names parts'
      let close : Token := ⟨.closing,[')'],before.length + f.source.length⟩
      have last : Lexes (before.length + f.source.length) [')'] [close] :=
        lexesBreak rfl rfl rfl (.done _)
      refine ⟨t :: (ts ++ [close]),lexesJoined lexed last rfl,fun start => ?_⟩
      have stop : close.stop = whole.length := by
        rw [parts']
        simp [close,Token.stop,Nat.add_assoc]
      have list := Listed.last (carry start [close] rfl) (rfl : close.tag = .closing)
      rwa [stop] at list
    | cons g fields =>
      have sources : rest ((f :: g :: fields).map source) =
          f.source ++ ',' :: ' ' :: rest ((g :: fields).map source) := restCons _ _ _
      rw [sources] at parts ⊢
      obtain ⟨t,ts,lexed,carry⟩ := readIn words first names parts
      have parts' : whole = (before ++ f.source ++ [',', ' ']) ++ rest ((g :: fields).map source) := by
        rw [parts]; simp
      obtain ⟨us,lexed',list⟩ := ih (List.cons_ne_nil g fields)
        (fun x hx => fits x (List.mem_cons_of_mem _ hx))
        (fun x hx => allowed x (List.mem_cons_of_mem _ hx)) parts'
      let comma : Token := ⟨.comma,[','],before.length + f.source.length⟩
      have last : Lexes (before.length + f.source.length)
          (',' :: ' ' :: rest ((g :: fields).map source)) (comma :: us) := by
        refine lexesBreak rfl rfl rfl (.gap rfl ?_)
        rwa [List.length_append,List.length_append] at lexed'
      refine ⟨t :: (ts ++ comma :: us),lexesJoined lexed last rfl,fun start => ?_⟩
      refine .more (carry start (comma :: us) rfl) (by simp [comma]) ?_ (list comma.stop)
      simp only [List.length_cons,List.length_append]
      omega

end Field
end ColumnDecl
