import ColumnDecl.Proofs.Token.Lexing

/-! Quoted tokens. However each character of a text is written between quotes, the whole is one token
that stands for the text, and it stays that token in front of all that does not begin with the quote. -/
namespace ColumnDecl.Token

/-- The same token this many characters further on. -/
def ahead (n : Nat) (x : Token) : Token := { x with start := x.start + n }

theorem lexesAhead {t : Text} {ts : List Token} (h : Lexes 0 t ts) (n : Nat) :
    Lexes n t (ts.map (ahead n)) := by
  obtain ⟨us,moved,same⟩ := lexesMoved h n
  rw [shiftedPlaced same] at moved
  exact moved

section
variable {q : Char} {tag : Tag} (quote : quoteTag? q = some tag) {v : Text} {ws : List Text}
  (each : List.Forall₂ (Text.Encodes q) v ws)
include quote

theorem quoteVisible : '\\' ≠ q ∧ Text.isLayout q = false := by
  rcases quoteCases quote with rfl | rfl | rfl <;> decide

include each

theorem encodedLexes {p : Nat} {u : Text} {us : List Token} (apart : u.head? ≠ some q)
    (rest : Lexes (p + (ws.flatten.length + 2)) u us) :
    Lexes p (q :: (ws.flatten ++ q :: u)) (⟨tag,q :: (ws.flatten ++ [q]),p⟩ :: us) := by
  obtain ⟨other,visible⟩ := quoteVisible quote
  have found : lexeme? q (ws.flatten ++ q :: u) = some (tag,ws.flatten.length + 1) := by
    unfold lexeme?
    rw [quote]
    dsimp only
    rw [Text.quotedEncoded other each apart]
    rfl
  have parts : ws.flatten ++ q :: u = (ws.flatten ++ [q]) ++ u := by simp
  have size : (ws.flatten ++ [q]).length = ws.flatten.length + 1 := by simp
  have front : (ws.flatten ++ q :: u).take (ws.flatten.length + 1) = ws.flatten ++ [q] := by
    rw [parts,← size,List.take_left]
  have behind : (ws.flatten ++ q :: u).drop (ws.flatten.length + 1) = u := by
    rw [parts,← size,List.drop_left]
  rw [← front]
  refine .token visible found ?_
  rwa [behind,show p + 1 + (ws.flatten.length + 1) = p + (ws.flatten.length + 2) by omega]

theorem encodedValue (p : Nat) : (Token.mk tag (q :: (ws.flatten ++ [q])) p).value = v := by
  have read := Text.unquoteEncoded (quoteVisible quote).1 each
  rcases quoteCases quote with rfl | rfl | rfl <;> cases quote
  all_goals
    unfold value
    dsimp only
    rw [read]
    rfl

end

/-- The quotes, with the tag of what stands between two of them. -/
def quotes : List (Char × Tag) :=
  [('\'',.string),('"',.quotedIdentifier),('\x60',.quotedIdentifier)]

theorem quotesTagged : ∀ q ∈ quotes, quoteTag? q.1 = some q.2 := by decide

theorem encodedToken {q : Char} {tag : Tag} (quote : (q,tag) ∈ quotes) {v : Text} {ws : List Text}
    (each : List.Forall₂ (Text.Encodes q) v ws) :
    let written : Text := q :: (ws.flatten ++ [q])
    let t : Token := ⟨tag,written,0⟩
    stream written = .ok [t] ∧ t.stop = written.length ∧ t.value = v ∧
      ∀ u us, stream u = .ok us → u.head? ≠ some q →
        stream (written ++ u) = .ok (t :: us.map (ahead written.length)) := by
  intro written t
  have tagged := quotesTagged _ quote
  have length : written.length = ws.flatten.length + 2 := by simp [written]
  have followed : ∀ u us, stream u = .ok us → u.head? ≠ some q →
      stream (written ++ u) = .ok (t :: us.map (ahead written.length)) := by
    intro u us lexed apart
    have rest := lexesAhead (streamExact.mp lexed) written.length
    have parts : written ++ u = q :: (ws.flatten ++ q :: u) := by simp [written]
    rw [parts,streamExact]
    refine encodedLexes tagged each apart ?_
    rwa [Nat.zero_add,← length]
  refine ⟨?_,Nat.zero_add _,encodedValue tagged each 0,followed⟩
  have alone := followed [] [] (streamExact.mpr (.done 0)) (by simp)
  rwa [List.append_nil] at alone

/- The quote stands here in both of its ways, the line break as itself and as a letter. -/
theorem encodedTokenMixed :
    let v : Text := "a'\n'\n\\d".toList
    let ws : List Text :=
      [['a'],['\'','\''],['\n'],['\\','\''],['\\','n'],['\\','\\'],['\\','d']]
    let written : Text := "'a''\n\\'\\n\\\\\\d'".toList
    let t : Token := ⟨.string,written,0⟩
    let u : Text := " \"b\"".toList
    let x : Token := ⟨.quotedIdentifier,"\"b\"".toList,1⟩
    ('\'',.string) ∈ quotes ∧ List.Forall₂ (Text.Encodes '\'') v ws ∧ stream u = .ok [x] ∧
      u.head? ≠ some '\'' ∧ stream written = .ok [t] ∧ t.value = v ∧
      stream (written ++ u) = .ok [t,{ x with start := 15 }] := by
  intro v ws written t u x
  have quote : ('\'',Tag.string) ∈ quotes := by decide
  have each : List.Forall₂ (Text.Encodes '\'') v ws :=
    .cons (.plain (by decide) (by decide)) <| .cons .doubled <|
    .cons (.plain (by decide) (by decide)) <| .cons (.escaped (by decide) (by decide)) <|
    .cons (.letter (by decide)) <| .cons (.escaped (by decide) (by decide)) <|
    .cons (.escaped (by decide) (by decide)) .nil
  have lexed : stream u = .ok [x] := by decide +kernel
  have apart : u.head? ≠ some '\'' := by decide
  obtain ⟨alone,_,value,followed⟩ := encodedToken quote each
  exact ⟨quote,each,lexed,apart,alone,value,followed u [x] lexed apart⟩

end ColumnDecl.Token
