import ColumnDecl.CommandLine
import ColumnDecl.Proofs.Column.Export
import ColumnDecl.Proofs.KeywordTable
import ColumnDecl.Proofs.Outcomes

/-! Runs on a declaration. A run prints all the columns that were read, or the one line that says what
is wrong; only a number too long to be written ends it without an output. -/
namespace ColumnDecl

namespace Column

theorem outlinesEach (level : Nat) (columns : List Column) :
    outlines level columns = columns.flatMap (outline level) := by
  induction columns with
  | nil => rfl
  | cons c columns ih => rw [outlines,ih,List.flatMap_cons]

end Column

namespace CommandLine

theorem oneLine (l : String) : lines [l] = l ++ "\n" := by
  simp only [lines,List.map_cons,List.map_nil,String.join,List.foldl_cons,List.foldl_nil,
    String.empty_append]
  rfl

/-- What a run on a declaration comes to. Nothing is printed but the columns or the refusal, and the
status tells which. -/
inductive Reported (r : Request) (declaration : Text) : Except Failure Output → Prop where
  | json {columns} (read : columnsOf r.name declaration = .ok columns) (asked : r.json = true) :
      Reported r declaration
        (.ok ⟨0,((Value.list (columns.map Column.toValue)).json 0).asString ++ "\n",""⟩)
  | outline {columns} (read : columnsOf r.name declaration = .ok columns) (asked : r.json = false) :
      Reported r declaration
        (.ok ⟨0,String.join ((columns.flatMap (Column.outline 0)).map (· ++ "\n")),""⟩)
  | refused {fault} (read : columnsOf r.name declaration = .error (.rejected fault)) :
      Reported r declaration (.ok ⟨1,"","Error: " ++ fault.message ++ "\n"⟩)
  | unwritable (read : columnsOf r.name declaration = .error .unwritableNumber)
      (long : Dialect.standard.Oversized declaration declaration.length) :
      Reported r declaration (.error .unwritableNumber)

theorem columnsRefusal {name : Option Text} {declaration : Text} {failure : Failure}
    (h : columnsOf name declaration = .error failure) :
    Declaration.Refusal (Dialect.standard.scope declaration declaration.length)
      (Dialect.standard.Oversized declaration declaration.length) failure := by
  unfold columnsOf at h
  cases name with
  | none => exact Dialect.parseFails h
  | some name =>
    dsimp only at h
    cases read : Dialect.standard.columnOf name declaration with
    | ok c => rw [read] at h; contradiction
    | error other =>
      rw [read] at h
      cases h
      exact Dialect.columnOfFails read

theorem printedLines (json : Bool) (columns : List Column) : printed json columns =
    if json then ((Value.list (columns.map Column.toValue)).json 0).asString ++ "\n"
    else String.join ((columns.flatMap (Column.outline 0)).map (· ++ "\n")) := by
  unfold printed
  rw [Column.valuesEach,Column.outlinesEach,oneLine]
  rfl

theorem reportReported (stamp : String) {r : Request} (declaration : Text)
    (quiet : r.verbose = false) : Reported r declaration (report stamp r declaration) := by
  unfold report
  simp only [quiet,Bool.false_eq_true,if_false]
  cases read : columnsOf r.name declaration with
  | ok columns =>
    dsimp only
    rw [printedLines]
    split
    next asked => exact .json read asked
    next other => exact .outline read (by simpa using other)
  | error failure =>
    cases columnsRefusal read with
    | @fault fault =>
      have said : failed [] fault.message = ⟨1,"","Error: " ++ fault.message ++ "\n"⟩ := by
        unfold failed
        rw [List.nil_append,oneLine]
        rfl
      dsimp only
      rw [said]
      exact .refused read
    | number long => exact .unwritable read long

theorem runDeclared (stamp : String) {arguments : List Text} {r : Request} {declaration : Text}
    (taken : read arguments = .ok (.run r)) (given : r.declaration = some declaration)
    (plain : r.format = none) : run stamp arguments = report stamp r declaration := by
  unfold run answer
  rw [taken]
  dsimp only
  rw [plain,given]
  rfl

theorem reportUnwritable (stamp : String) {r : Request} {declaration : Text}
    (read : columnsOf r.name declaration = .error .unwritableNumber) :
    report stamp r declaration = .error .unwritableNumber := by
  unfold report
  rw [read]

theorem runReported (stamp : String) (arguments : List Text) (r : Request) (declaration : Text)
    (taken : read arguments = .ok (.run r)) (given : r.declaration = some declaration)
    (plain : r.format = none) (quiet : r.verbose = false) :
    Reported r declaration (run stamp arguments) := by
  rw [runDeclared stamp taken given plain]
  exact reportReported stamp declaration quiet

theorem runReportedQuote :
    let fault : Fault := ⟨.unterminatedQuote '\'' 1,some "a 'b".toList,some 2,none⟩
    run "12" ["a 'b".toList,"-j".toList] = .ok ⟨1,"","Error: " ++ fault.message ++ "\n"⟩ := by
  intro fault
  have taken : read ["a 'b".toList,"-j".toList] =
      .ok (.run ⟨some "a 'b".toList,none,true,none,false⟩) := by decide +kernel
  have refusal : columnsOf none "a 'b".toList = .error (.rejected fault) := by
    rw [columnsOf,Dialect.standard,Keywords.builtinTable]
    decide +kernel
  have reported := runReported "12" _ _ "a 'b".toList taken rfl rfl rfl
  generalize run "12" _ = outcome at reported ⊢
  cases reported with
  | json read => exact nomatch refusal.symm.trans read
  | outline read => exact nomatch refusal.symm.trans read
  | refused read =>
    have same := refusal.symm.trans read
    cases same
    rfl
  | unwritable read => exact nomatch refusal.symm.trans read

/- The length is out of range, and too long to be written into the refusal. -/
theorem lengthUnreported :
    let declaration := "a FixedString(0x".toList ++ List.replicate 3600 'f' ++ [')']
    read [declaration] = .ok (.run ⟨some declaration,none,false,none,false⟩) ∧
      run "12" [declaration] = .error .unwritableNumber := by
  intro declaration
  have taken : read [declaration] = .ok (.run ⟨some declaration,none,false,none,false⟩) := by
    decide +kernel
  have refusal : columnsOf none declaration = .error .unwritableNumber := by
    rw [columnsOf,Dialect.standard,Keywords.builtinTable]
    decide +kernel
  exact ⟨taken,(runDeclared "12" taken rfl rfl).trans (reportUnwritable "12" refusal)⟩

end CommandLine
end ColumnDecl
