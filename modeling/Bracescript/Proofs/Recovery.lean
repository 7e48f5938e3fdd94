import Bracescript.Proofs.SentenceParsing

/-!
# What is written is read back

The tokens that are written for an expression or for statements, wherever they stand and whatever blank space is between
them, are parsed into that expression and into those statements.
-/

namespace Bracescript

open TokenTree

namespace SourceFile

theorem parseTokens_gives {f : SourceFile} {tokens : List Token} {trees : List TokenTree} {Q : List Stmt → Prop}
    (hnest : nest (significant tokens) = (trees, none))
    (h : Parse.Gives {} (Parse.sequence (statements f.endToken trees)) Q) :
    ∃ p, f.parseTokens tokens = .ok p ∧ Q p.statements := by
  obtain ⟨ss, s', hrun, -, hss⟩ := h {} rfl
  have hstatements : f.parseStatements tokens = Parse.sequence (statements f.endToken trees) := by
    rw [parseStatements, hnest]
  have hparse : f.parseStatements tokens {} = (.ok ss, s') := by
    rw [hstatements]
    exact hrun
  exact ⟨_, by rw [parseTokens, hparse], hss⟩

/-- Tokens that are written for sentences are a program when each of the sentences is read as it is meant. -/
theorem parseTokens_recovers (f : SourceFile) {ss : List Sentence} {tokens : List Token}
    (hss : ∀ s ∈ ss, Parse.Recovers {} s)
    (h : (significant tokens).map Token.unplaced = flattenAll (Sentence.forestAll ss)) :
    ∃ p, f.parseTokens tokens = .ok p ∧ Stmt.unplacedAll p.statements = Sentence.treeAll ss := by
  obtain ⟨trees, hnest, htrees⟩ := nest_unplaced (Sentence.matchedAll ss) h
  exact parseTokens_gives hnest (Parse.sequence_sentences hss (statements_forestAll htrees f.endToken))

/-- An expression that is declared as the value of a name is read back, whatever it is made of. -/
theorem parseTokens_phrase (f : SourceFile) (x : Bytes) (e : Phrase) (tokens : List Token)
    (h : (significant tokens).map Token.unplaced =
      flattenAll (wordLeaf "let" :: nameLeaf x :: equalsLeaf :: (e.forest ++ [semicolonLeaf]))) :
    ∃ p, f.parseTokens tokens = .ok p ∧
      Stmt.unplacedAll p.statements = [.assign .blank true false (.ident .blank x) (some e.tree)] := by
  let s : Simple := .declare false none x (some e) fun _ => rfl
  have hforest : Sentence.forestAll [.simple s] =
      wordLeaf "let" :: nameLeaf x :: equalsLeaf :: (e.forest ++ [semicolonLeaf]) := List.append_nil _
  have hs : ∀ s' ∈ [Sentence.simple s], Parse.Recovers {} s' := by
    simpa using Parse.recovers_simple s
  exact parseTokens_recovers f hs (hforest ▸ h)

/-- A choice between a slice of a call and a step. -/
def chosenSlice : Phrase :=
  .ternary (.front "typeof" (by decide) (.name "y"))
    (.extend (.extend (.name "f") (.call [.name "a", .string "q"])) (.slice (some (.number "2" "f" .float32 rfl)) none))
    (.behind (.name "i") "++" (by decide))

def chosenSliceFile : SourceFile := ⟨0, "choice.uns", "let x = (typeof(y)) ? (((f)((a),('q')))[(2f):]) : ((i)++);", 0⟩

theorem chosenSlice_recovered :
    ∃ tokens, chosenSliceFile.tokenize = .ok tokens ∧
      (significant tokens).map Token.unplaced =
        flattenAll (wordLeaf "let" :: nameLeaf "x" :: equalsLeaf :: (chosenSlice.forest ++ [semicolonLeaf])) ∧
      ∃ p, chosenSliceFile.parseTokens tokens = .ok p ∧
        Stmt.unplacedAll p.statements = [.assign .blank true false (.ident .blank "x") (some chosenSlice.tree)] := by
  have hwritten : chosenSliceFile.tokenize.toOption.map (fun tokens => (significant tokens).map Token.unplaced) =
      some (flattenAll (wordLeaf "let" :: nameLeaf "x" :: equalsLeaf :: (chosenSlice.forest ++ [semicolonLeaf]))) := by
    decide +kernel
  cases h : chosenSliceFile.tokenize with
  | error e =>
    rw [h] at hwritten
    cases hwritten
  | ok tokens =>
    rw [h] at hwritten
    have htokens := Option.some.inj hwritten
    exact ⟨tokens, rfl, htokens, parseTokens_phrase chosenSliceFile "x" chosenSlice tokens htokens⟩

/-- Statements are read back, however deep their blocks are nested. -/
theorem parseTokens_sentences (f : SourceFile) (ss : List Sentence) (tokens : List Token)
    (hfits : Sentence.fitAll false false ss = true)
    (h : (significant tokens).map Token.unplaced = flattenAll (Sentence.forestAll ss)) :
    ∃ p, f.parseTokens tokens = .ok p ∧ Stmt.unplacedAll p.statements = Sentence.treeAll ss :=
  parseTokens_recovers f (Parse.recoversAll ss hfits (Scope.allows_outside {})) h

/-- A class with a method that chooses between three blocks, and a loop. -/
def classAndLoop : List Sentence :=
  [.defineClass "A" (some [.name "B"])
      [.simple (.typed "t" "n" none),
        .define "m" [⟨some "t", "y", none⟩, ⟨none, "z", some (.string "q")⟩] (by decide)
          [.conditional (.name "c") [.ret none]
            (.elseIf (.name "d") [.simple (.change (.extend (.name "y") (.member "w")) rfl (.name "z"))]
              (.block [.whileLoop (.name "e") [.brk]]))]],
    .forLoop none none (some (.step (.name "i") "++" (by decide)))
      [.simple (.run (.extend (.name "f") (.call [.name "i"])))]]

def classAndLoopFile : SourceFile where
  id := 0
  path := "nested.uns"
  content := ("class A(B)\x7bt n;def m(t y,z='q')\x7bif(c)\x7breturn;\x7delse if(d)\x7by.w=z;\x7d" : Bytes) ++
    "else\x7bwhile(e)\x7bbreak;\x7d\x7d\x7d\x7dfor(;;i++)\x7bf((i));\x7d"
  flags := 0

theorem classAndLoop_recovered :
    ∃ tokens, classAndLoopFile.tokenize = .ok tokens ∧ Sentence.fitAll false false classAndLoop = true ∧
      (significant tokens).map Token.unplaced = flattenAll (Sentence.forestAll classAndLoop) ∧
      ∃ p, classAndLoopFile.parseTokens tokens = .ok p ∧
        Stmt.unplacedAll p.statements = Sentence.treeAll classAndLoop := by
  have hfits : Sentence.fitAll false false classAndLoop = true := by decide +kernel
  have hwritten : classAndLoopFile.tokenize.toOption.map (fun tokens => (significant tokens).map Token.unplaced) =
      some (flattenAll (Sentence.forestAll classAndLoop)) := by
    decide +kernel
  cases h : classAndLoopFile.tokenize with
  | error e =>
    rw [h] at hwritten
    cases hwritten
  | ok tokens =>
    rw [h] at hwritten
    have htokens := Option.some.inj hwritten
    exact ⟨tokens, rfl, hfits, htokens, parseTokens_sentences classAndLoopFile classAndLoop tokens hfits htokens⟩

end SourceFile

end Bracescript
